import TreeDiff.Diff.EditCost
import TreeDiff.Grid.Search

/-!
# The differ of trees

Two trees match if their labels are the same; the match carries a cheapest script of their
children, which is found by the search of the edit graph with the differ itself as comparison.

* `Differ m ℓ`: which labels are the same, what a diff costs, and the settings of all searches.
  `Differ.standard` is the one that asks for equal labels and charges the edit cost.
  `Differ.onFst` is a differ on a part of the state.
* `Differ.match?`: the match of two trees, if their labels are the same. A search of children that
  runs out of time gives no match and leaves its report; while there is a report, nothing is
  compared any more.
* `Differ.compare`, `Differ.diffTrees`, `Differ.diffSequences`: the match of two trees, their
  diff, and a cheapest script of two lists of trees, without a limit of time.
* `Differ.diffTreesWithin`, `Differ.diffSequencesWithin`: the same within the time that the
  settings allow for the whole call. A report of a search inside takes the place of the result.
-/

namespace TreeDiff

/-- Which labels are the same, what a diff costs, and the settings of all searches. -/
structure Differ (m : Type → Type) (ℓ : Type) where
  sameLabel : ℓ → ℓ → Bool
  cost : Diff ℓ → m Nat
  settings : Settings := {}
  /-- The largest cost of a script. -/
  ceiling : Nat := maxCost

/-- Computations in which a search inside another one may have left a report. -/
abbrev Reporting (τ : Type) (m : Type → Type) : Type → Type := StateT (Option τ) m

/-- A tree of the old side with its comparison to trees of the new side. -/
structure Candidate (n : Type → Type) (ℓ : Type) where
  tree : Tree ℓ
  compare : Tree ℓ → n (Option (Diff ℓ))

namespace Differ

variable {m : Type → Type} [Monad m] [MonadLiftT (Except Fault) m] {ℓ τ : Type}

/-- The differ for equal labels, at the edit cost, with costs up to the ceiling. -/
def standard [DecidableEq ℓ] (ceiling : Nat) : Differ m ℓ where
  sameLabel l k := l = k
  cost d := liftM (d.editCost? ceiling)
  ceiling := ceiling

/-- The differ on a larger state. -/
def onFst {σ : Type} (ρ : Type) (D : Differ (Attempt σ) ℓ) : Differ (Attempt (σ × ρ)) ℓ where
  sameLabel := D.sameLabel
  cost d := (D.cost d).onFst
  settings := D.settings
  ceiling := D.ceiling

/-- The text that describes a differ. -/
def text (D : Differ m ℓ) : String :=
  "TermDiffer \x7b options: " ++ D.settings.text ++ ", .. \x7d"

/-- The policy of all searches: candidates are compared as they say, and lost and gained by edits
of whole trees. -/
def policy (D : Differ m ℓ) :
    Policy (Reporting τ m) (Candidate (Reporting τ m) ℓ) (Tree ℓ) (Diff ℓ) where
  delete x := .edit (.delete x.tree)
  insert y := .edit (.insert y)
  compare x y := x.compare y
  cost d := liftM (D.cost d)
  ceiling := D.ceiling

/-- The interrupt of searches that may leave reports. -/
def asking (interrupt : Interrupt m τ) : Interrupt (Reporting τ m) τ :=
  fun solved total => liftM (interrupt solved total)

/-- The search for a cheapest script that turns the candidates into `bs`. -/
def searchScript (D : Differ m ℓ) (interrupt : Interrupt m τ)
    (cs : List (Candidate (Reporting τ m) ℓ)) (bs : List (Tree ℓ)) :
    ExceptT τ (Reporting τ m) (Script (Diff ℓ)) :=
  search D.policy D.settings.tieBreak (asking interrupt) cs bs

/-- The match of a node, given by its label and its children, with a tree. -/
def matchNode (D : Differ m ℓ) (interrupt : Interrupt m τ) (l : ℓ)
    (cs : List (Candidate (Reporting τ m) ℓ)) (b : Tree ℓ) :
    Reporting τ m (Option (Diff ℓ)) := do
  if !D.sameLabel l b.label || (← get).isSome then
    return none
  else
    match ← (D.searchScript interrupt cs b.children).run with
    | .ok script => return some (.merge l script.edits)
    | .error t =>
      set (some t)
      return none

mutual

/-- The match of two trees, if their labels are the same and no search has left a report. -/
def match? (D : Differ m ℓ) (interrupt : Interrupt m τ) :
    (a : Tree ℓ) → (b : Tree ℓ) → Reporting τ m (Option (Diff ℓ))
  | .node l cs, b => D.matchNode interrupt l (candidates D interrupt cs) b

/-- The trees of a list with their comparison. -/
def candidates (D : Differ m ℓ) (interrupt : Interrupt m τ) :
    List (Tree ℓ) → List (Candidate (Reporting τ m) ℓ)
  | [] => []
  | a :: as => ⟨a, match? D interrupt a⟩ :: candidates D interrupt as

end

theorem candidates_eq_map (D : Differ m ℓ) (interrupt : Interrupt m τ) (as : List (Tree ℓ)) :
    D.candidates interrupt as = as.map fun a => ⟨a, D.match? interrupt a⟩ := by
  induction as with
  | nil => rw [candidates, List.map_nil]
  | cons a as ih => rw [candidates, List.map_cons, ih]

theorem match?_node (D : Differ m ℓ) (interrupt : Interrupt m τ) (l : ℓ) (cs : List (Tree ℓ))
    (b : Tree ℓ) :
    D.match? interrupt (.node l cs) b =
      D.matchNode interrupt l (cs.map fun a => ⟨a, D.match? interrupt a⟩) b := by
  rw [match?, candidates_eq_map]

/-! ## Without a limit of time -/

/-- The match of two trees, if their labels are the same. -/
def compare (D : Differ m ℓ) (a b : Tree ℓ) : m (Option (Diff ℓ)) :=
  (D.match? .never a b).run' none

/-- The diff of two trees: their match, or the replacement of the one by the other. -/
def diffTrees (D : Differ m ℓ) (a b : Tree ℓ) : m (Diff ℓ) :=
  return (← D.compare a b).getD (.edit (.replace a b))

/-- A cheapest script of two lists of trees. -/
def diffSequences (D : Differ m ℓ) (as bs : List (Tree ℓ)) : m (List (Diff ℓ)) := do
  let script ← (uninterrupted (D.searchScript .never (D.candidates .never as) bs)).run' none
  return script.edits

/-! ## Within a limit of time -/

/-- The diff of two trees, found within the time that the settings allow from now on. -/
def diffTreesWithin (clock : m Instant) (D : Differ m ℓ) (a b : Tree ℓ) :
    ExceptT Timeout m (Diff ℓ) := do
  let limit ← D.settings.limit clock
  let (d, report) ← (D.match? (.deadline clock limit) a b).run none
  match report with
  | some t => throw t
  | none => return d.getD (.edit (.replace a b))

/-- A cheapest script of two lists of trees, found within the time that the settings allow from
now on. -/
def diffSequencesWithin (clock : m Instant) (D : Differ m ℓ) (as bs : List (Tree ℓ)) :
    ExceptT Timeout m (List (Diff ℓ)) := do
  let limit ← D.settings.limit clock
  let interrupt := Interrupt.deadline clock limit
  let (script, report) ←
    (D.searchScript interrupt (D.candidates interrupt as) bs).run.run none
  match script, report with
  | .error t, _ => throw t
  | .ok _, some t => throw t
  | .ok s, none => return s.edits

end Differ

end TreeDiff
