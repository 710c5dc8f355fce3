import Mathlib.Data.List.ProdSigma
import TreeDiff.Proofs.Attempt
import TreeDiff.Proofs.Grid.Traversal

/-!
# Every pair is compared once

A run of the search that returns a script has compared every pair of elements once, from the last
pair to the first. A property of the state that speaks of the comparisons so far thus holds in the
end of all pairs.

* `Policy.compared`: the pairs that have been compared when a position has been visited.
* `Policy.Visits`: a property of the state that takes note of comparisons and of nothing else.
  `Policy.Visits.search` is the conclusion for a search.
-/

namespace TreeDiff.Policy

variable {κ α β δ τ : Type}

/-- The pairs of elements that have been compared when the position before the suffixes `xs` and
`ys` has been visited, the last one first. The second sequence is `ys₀`. -/
def compared (ys₀ : List β) : List α → List β → List (α × β)
  | [], _ => []
  | x :: xs, ys => ys.map (x, ·) ++ xs ×ˢ ys₀

theorem compared_self (ys₀ : List β) (xs : List α) : compared ys₀ xs ys₀ = xs ×ˢ ys₀ := by
  cases xs with
  | nil => rfl
  | cons x xs => rw [compared, List.product_cons]

theorem compared_cons_nil (ys₀ : List β) (x : α) (xs : List α) :
    compared ys₀ (x :: xs) [] = xs ×ˢ ys₀ := by
  rw [compared, List.map_nil, List.nil_append]

theorem compared_cons_cons (ys₀ : List β) (x : α) (xs : List α) (y : β) (ys : List β) :
    compared ys₀ (x :: xs) (y :: ys) = (x, y) :: compared ys₀ (x :: xs) ys := by
  rw [compared, compared, List.map_cons, List.cons_append]

/-- The property `A` of the state takes note of the pairs that have been compared, the last one
first, and of nothing else that a search does. -/
structure Visits (A : List (α × β) → κ → Prop) (P : Policy (Attempt κ) α β δ)
    (interrupt : Interrupt (Attempt κ) τ) : Prop where
  check : ∀ {pairs s s' o solved total}, A pairs s → interrupt solved total s = .ok o s' →
    A pairs s'
  cost : ∀ {pairs s s' d c}, A pairs s → P.cost d s = .ok c s' → A pairs s'
  compare : ∀ {pairs s s' x y o}, A pairs s → P.compare x y s = .ok o s' → A ((x, y) :: pairs) s'

namespace Visits

variable {A : List (α × β) → κ → Prop} {P : Policy (Attempt κ) α β δ}
  {interrupt : Interrupt (Attempt κ) τ} (h : Visits A P interrupt)
include h

theorem gridRule (tie : TieBreak) (xs : List α) (ys : List β) :
    GridRule (Attempt.leading τ κ) P P tie interrupt interrupt xs ys (fun _ _ => True)
      (fun _ _ _ => True) (fun xs' ys' => A (compared ys xs' ys')) where
  delete_eq := rfl
  insert_eq := rfl
  loss _ _ := Attempt.leading_liftM fun _ _ _ hs hrun => ⟨trivial, h.cost hs hrun⟩
  gain _ _ := Attempt.leading_liftM fun _ _ _ hs hrun => ⟨trivial, h.cost hs hrun⟩
  done := trivial
  delete _ _ _ := by
    rw [compared_self, compared_cons_nil]
    exact Attempt.leading_except (fun _ _ => trivial) fun _ hs => hs
  insert _ _ _ := Attempt.leading_except (fun _ _ => trivial) fun _ hs => hs
  position := by
    intro x xs' y ys' c c' lost gained both hx hy _ _ _ _ _ solved total _ _
    rw [compared_cons_cons]
    refine (Attempt.leading τ κ).bind (Attempt.leading_check fun _ _ _ hs hrun => h.check hs hrun)
      fun _ _ => ?_
    refine ((Attempt.leading τ κ).comap (Attempt κ) (Attempt κ)).cell (Q := fun _ => True)
      (K := fun _ _ => True) P P tie ?_ ?_ ?_ ?_ ?_
    · exact Attempt.leading_except (fun _ _ => trivial) fun s hs => hs
    · exact Attempt.leading_except (fun _ _ => trivial) fun s hs => hs
    · exact Attempt.leading_liftM fun _ _ _ hs hrun => ⟨fun _ _ => trivial, h.compare hs hrun⟩
    · exact fun _ _ => Attempt.leading_liftM fun _ _ _ hs hrun => ⟨trivial, h.cost hs hrun⟩
    · exact fun _ _ _ _ => Attempt.leading_except (fun _ _ => trivial) fun s hs => hs

/-- A search that returns has compared every pair of elements once. -/
theorem search {tie : TieBreak} {xs : List α} {ys : List β} {s s' : κ} {script : Script δ}
    (hs : A [] s) (hrun : (TreeDiff.search P tie interrupt xs ys).run s = .ok (.ok script) s') :
    A (xs ×ˢ ys) s' := by
  obtain ⟨-, hs'⟩ := (h.gridRule tie xs ys).search s script s' hs hrun
  rwa [compared_self] at hs'

end Visits

end TreeDiff.Policy
