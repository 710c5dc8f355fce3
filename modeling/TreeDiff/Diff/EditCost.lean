import TreeDiff.Cost
import TreeDiff.Diff.Basic

/-!
# The edit cost of a diff

Every node that is inserted, deleted or replaced costs one, matched nodes cost nothing.

* `Diff.editCost`: the exact cost.
* `Diff.editCost?`: the cost added up under a ceiling. A partial sum passes the ceiling if and only
  if the exact cost lies above it (`Diff.editCost?_eq`).
-/

namespace TreeDiff.Diff

variable {ℓ : Type}

mutual

/-- The number of nodes inserted, deleted and replaced. -/
def editCost : Diff ℓ → Nat
  | edit (.insert new) => new.size
  | edit (.delete old) => old.size
  | edit (.replace old new) => old.size + new.size
  | merge _ ds => editCostAll ds

/-- The edit cost of all diffs of a list. -/
def editCostAll : List (Diff ℓ) → Nat
  | [] => 0
  | d :: ds => editCost d + editCostAll ds

end

@[simp] theorem editCost_insert (t : Tree ℓ) : (edit (.insert t)).editCost = t.size := by
  rw [editCost]

@[simp] theorem editCost_delete (t : Tree ℓ) : (edit (.delete t)).editCost = t.size := by
  rw [editCost]

@[simp] theorem editCost_replace (t u : Tree ℓ) :
    (edit (.replace t u)).editCost = t.size + u.size := by rw [editCost]

@[simp] theorem editCost_merge (l : ℓ) (ds : List (Diff ℓ)) :
    (merge l ds).editCost = editCostAll ds := by rw [editCost]

@[simp] theorem editCostAll_nil : editCostAll ([] : List (Diff ℓ)) = 0 := by rw [editCostAll]

@[simp] theorem editCostAll_cons (d : Diff ℓ) (ds : List (Diff ℓ)) :
    editCostAll (d :: ds) = d.editCost + editCostAll ds := by rw [editCostAll]

/-! ## Adding up under a ceiling -/

mutual

/-- The edit cost, a fault as soon as a sum lies above the ceiling. -/
def editCost? (ceiling : Nat) : Diff ℓ → Except Fault Nat
  | edit (.insert new) => withinCeiling ceiling new.size
  | edit (.delete old) => withinCeiling ceiling old.size
  | edit (.replace old new) => addCosts ceiling old.size new.size
  | merge _ ds => addEditCosts ceiling 0 ds

/-- Adds the edit costs of the diffs of a list to a sum, one after the other. -/
def addEditCosts (ceiling sum : Nat) : List (Diff ℓ) → Except Fault Nat
  | [] => .ok sum
  | d :: ds => do
    let c ← editCost? ceiling d
    addEditCosts ceiling (← addCosts ceiling sum c) ds

end

theorem addEditCosts_eq {ceiling : Nat} {ds : List (Diff ℓ)}
    (h : ∀ d ∈ ds, editCost? ceiling d = withinCeiling ceiling d.editCost) (sum : Nat)
    (hs : sum ≤ ceiling) :
    addEditCosts ceiling sum ds = withinCeiling ceiling (sum + editCostAll ds) := by
  induction ds generalizing sum with
  | nil => simp [addEditCosts, withinCeiling, hs]
  | cons d ds ih =>
    have hd := h d (by simp)
    have hds : ∀ e ∈ ds, editCost? ceiling e = withinCeiling ceiling e.editCost :=
      fun e he => h e (by simp [he])
    rw [addEditCosts, hd, editCostAll_cons]
    by_cases hc : d.editCost ≤ ceiling
    · by_cases hsum : sum + d.editCost ≤ ceiling
      · have hnext := ih hds (sum + d.editCost) hsum
        simpa [withinCeiling, addCosts, hc, hsum, bind, Except.bind, Nat.add_assoc] using hnext
      · have htotal : ¬ sum + (d.editCost + editCostAll ds) ≤ ceiling := by omega
        simp [withinCeiling, addCosts, hc, hsum, htotal, bind, Except.bind]
    · have htotal : ¬ sum + (d.editCost + editCostAll ds) ≤ ceiling := by omega
      simp [withinCeiling, hc, htotal, bind, Except.bind]

/-- The sums of the edit cost pass the ceiling if and only if the exact cost lies above it. -/
theorem editCost?_eq (ceiling : Nat) (d : Diff ℓ) :
    editCost? ceiling d = withinCeiling ceiling d.editCost := by
  induction d using induct with
  | atEdit e => cases e <;> simp [editCost?, addCosts]
  | atMerge l ds ih =>
    rw [editCost?, addEditCosts_eq ih 0 (Nat.zero_le _), Nat.zero_add, editCost_merge]

end TreeDiff.Diff
