import Mathlib.Algebra.GroupWithZero.Nat
import TreeDiff.Script.Basic

/-!
# Exact scripts

The annotations of the exact script of edits with their own costs are the sums of the costs of its
rests.

* `ownCost`: the exact cost of edits with their own costs.
* `Script.total_ofPrices`, `Script.getElem?_ofPrices`: the cost of an exact script, and its
  annotations.
* `Script.length_ofPrices`, `Script.snd_le_of_mem_ofPrices`: how many there are, and that none lies
  above the cost of the script.
-/

namespace TreeDiff

variable {δ : Type}

/-- The exact cost of edits with their own costs. -/
def ownCost (ps : List (δ × Nat)) : Nat := (ps.map Prod.snd).sum

theorem ownCost_cons (p : δ × Nat) (ps : List (δ × Nat)) :
    ownCost (p :: ps) = p.2 + ownCost ps := by
  simp [ownCost]

theorem ownCost_drop_le (ps : List (δ × Nat)) (k : Nat) : ownCost (ps.drop k) ≤ ownCost ps := by
  have hsplit : ownCost (ps.take k) + ownCost (ps.drop k) = ownCost ps := by
    rw [ownCost, ownCost, ownCost, ← List.sum_append, ← List.map_append, List.take_append_drop]
  omega

namespace Script

theorem total_ofPrices (ps : List (δ × Nat)) :
    (ofPrices ps).total = (ps.map Prod.snd).sum := by
  induction ps with
  | nil => rfl
  | cons p ps ih => rw [ofPrices_cons, total_cons, ih, List.map_cons, List.sum_cons]

/-- Every annotation is the sum of the costs from its edit on. -/
theorem getElem?_ofPrices (ps : List (δ × Nat)) (i : Nat) :
    (ofPrices ps).entries[i]? = ps[i]?.map fun p => (p.1, ((ps.drop i).map Prod.snd).sum) := by
  induction ps generalizing i with
  | nil => rfl
  | cons p ps ih =>
    cases i with
    | zero => simp [cons, total_ofPrices]
    | succ i => simpa [cons] using ih i

theorem length_ofPrices (ps : List (δ × Nat)) : (ofPrices ps).entries.length = ps.length := by
  have hedits := congrArg List.length (edits_ofPrices ps)
  simpa [edits] using hedits

theorem snd_le_of_mem_ofPrices {ps : List (δ × Nat)} {entry : δ × Nat}
    (h : entry ∈ (ofPrices ps).entries) : entry.2 ≤ ownCost ps := by
  obtain ⟨k, hk⟩ := List.mem_iff_getElem?.1 h
  rw [getElem?_ofPrices, Option.map_eq_some_iff] at hk
  obtain ⟨p, -, rfl⟩ := hk
  exact ownCost_drop_le ps k

end Script

end TreeDiff
