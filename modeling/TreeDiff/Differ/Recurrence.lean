import TreeDiff.Differ
import TreeDiff.Grid.Recurrence

/-!
# The recurrence of the differ

At the edit cost, the differ is a recursion on trees in exact arithmetic. The match of two nodes is
the node over a cheapest script of their children, and this script is the one of the recurrence of
cheapest scripts, for which the children are compared by the same recursion.

* `Differ.exactPolicy`: the policy of this recurrence, for trees that come with their comparison.
* `Differ.bestMatch?`: the match of two trees, if their labels are the same.
* `Differ.bestPolicy`, `Differ.bestScript`: the policy on trees, and its cheapest script for two
  lists of trees.
-/

namespace TreeDiff.Differ

variable {ℓ : Type}

/-- The policy at the edit cost: candidates are compared as they say, and lost and gained by edits
of whole trees. -/
def exactPolicy : Policy Id (Candidate Id ℓ) (Tree ℓ) (Diff ℓ) where
  delete x := .edit (.delete x.tree)
  insert y := .edit (.insert y)
  compare x y := x.compare y
  cost d := pure d.editCost

mutual

/-- The match of two trees, if their labels are the same. -/
def bestMatch? (same : ℓ → ℓ → Bool) (tie : TieBreak) : (a : Tree ℓ) → (b : Tree ℓ) →
    Option (Diff ℓ)
  | .node l cs, b =>
    if same l b.label then
      some (.merge l (exactPolicy.best tie (bestCandidates same tie cs) b.children).edits)
    else none

/-- The trees of a list with their comparison. -/
def bestCandidates (same : ℓ → ℓ → Bool) (tie : TieBreak) : List (Tree ℓ) → List (Candidate Id ℓ)
  | [] => []
  | a :: as => ⟨a, fun b => pure (bestMatch? same tie a b)⟩ :: bestCandidates same tie as

end

/-- The policy on trees in place of candidates. -/
def bestPolicy (same : ℓ → ℓ → Bool) (tie : TieBreak) : Policy Id (Tree ℓ) (Tree ℓ) (Diff ℓ) :=
  exactPolicy.onFirst fun a => ⟨a, fun b => pure (bestMatch? same tie a b)⟩

/-- The cheapest script of two lists of trees. -/
def bestScript (same : ℓ → ℓ → Bool) (tie : TieBreak) (as bs : List (Tree ℓ)) :
    Script (Diff ℓ) :=
  (bestPolicy same tie).best tie as bs

theorem bestCandidates_eq_map (same : ℓ → ℓ → Bool) (tie : TieBreak) (as : List (Tree ℓ)) :
    bestCandidates same tie as = as.map fun a => ⟨a, fun b => pure (bestMatch? same tie a b)⟩ := by
  induction as with
  | nil => rw [bestCandidates, List.map_nil]
  | cons a as ih => rw [bestCandidates, List.map_cons, ih]

end TreeDiff.Differ
