import Mathlib.Data.List.Basic
import Mathlib.Data.Set.List
import TreeDiff.Diff.Kinds
import TreeDiff.Proofs.Diff.Costs

/-!
# Unchanged diffs

A diff without an edit is matched throughout, and so the copy of a tree. No edit is for free: a
diff costs nothing if and only if it has no edit. Trees with a diff that costs nothing are equal.

* `Diff.before?_copy`, `Diff.after?_copy`: both sides of a copy are the tree.
* `Diff.exists_eq_copy_iff`: the copies are the diffs without an edit.
* `Diff.editCost_eq_zero_iff`: the diffs that cost nothing have no edit.
* `Diff.zero_mem_costs_iff`, `Diff.zero_mem_costsAll_iff`: nothing is the cost of a diff between
  equal sides only.
-/

namespace TreeDiff.Diff

variable {ℓ : Type} {a b : Tree ℓ} {as bs : List (Tree ℓ)}

/-! ## Copies -/

/-- The sides of copies are the trees, if they are for each of them. -/
theorem filterMap_map_copy {side? : Diff ℓ → Option (Tree ℓ)} {ts : List (Tree ℓ)}
    (h : ∀ t ∈ ts, side? (copy t) = some t) : (ts.map copy).filterMap side? = ts := by
  rw [List.filterMap_map]
  exact (List.filterMap_congr h).trans List.filterMap_some

@[simp] theorem before?_copy (t : Tree ℓ) : (copy t).before? = some t := by
  induction t using Tree.induct with
  | step l cs ih => rw [copy_node, before?_merge, filterMap_map_copy ih]

@[simp] theorem after?_copy (t : Tree ℓ) : (copy t).after? = some t := by
  induction t using Tree.induct with
  | step l cs ih => rw [copy_node, after?_merge, filterMap_map_copy ih]

@[simp] theorem edits_copy (t : Tree ℓ) : (copy t).edits = [] := by
  induction t using Tree.induct with
  | step l cs ih =>
    rw [copy_node, edits_merge, editsAll_eq_flatMap, List.flatMap_eq_nil_iff]
    exact List.forall_mem_map.2 ih

/-- Diffs that are copies, one by one, are the copies of a list of trees. -/
theorem exists_eq_map_copy {ds : List (Diff ℓ)} (h : ∀ d ∈ ds, ∃ t, d = copy t) :
    ∃ ts : List (Tree ℓ), ds = ts.map copy := by
  have hds : ds ∈ Set.range (List.map (copy (ℓ := ℓ))) := by
    rw [Set.range_list_map]
    exact fun d hd => (h d hd).imp fun t ht => ht.symm
  obtain ⟨ts, hts⟩ := hds
  exact ⟨ts, hts.symm⟩

/-- The copies are the diffs without an edit. -/
theorem exists_eq_copy_iff {d : Diff ℓ} : (∃ t, d = copy t) ↔ d.edits = [] := by
  constructor
  · rintro ⟨t, rfl⟩
    exact edits_copy t
  · intro h
    induction d using induct with
    | atEdit e => simp at h
    | atMerge l ds ih =>
      rw [edits_merge, editsAll_eq_flatMap, List.flatMap_eq_nil_iff] at h
      obtain ⟨ts, rfl⟩ := exists_eq_map_copy fun d hd => ih d hd (h d hd)
      exact ⟨.node l ts, (copy_node l ts).symm⟩

/-! ## Diffs that cost nothing -/

theorem editCost_edit_pos (e : Edit (Tree ℓ)) : 0 < (edit e).editCost := by
  cases e with
  | insert new => simpa using new.size_pos
  | delete old => simpa using old.size_pos
  | replace old new => simpa using Nat.add_pos_left old.size_pos new.size

theorem editCostAll_eq_zero_iff {ds : List (Diff ℓ)} :
    editCostAll ds = 0 ↔ ∀ d ∈ ds, d.editCost = 0 := by
  induction ds with
  | nil => simp
  | cons d ds ih => simp [ih]

/-- No edit is for free. -/
theorem editCost_eq_zero_iff {d : Diff ℓ} : d.editCost = 0 ↔ d.edits = [] := by
  induction d using induct with
  | atEdit e => simpa using (editCost_edit_pos e).ne'
  | atMerge l ds ih =>
    rw [editCost_merge, editCostAll_eq_zero_iff, edits_merge, editsAll_eq_flatMap,
      List.flatMap_eq_nil_iff]
    exact forall₂_congr ih

theorem exists_eq_copy_of_editCost_eq_zero {d : Diff ℓ} (h : d.editCost = 0) :
    ∃ t, d = copy t :=
  exists_eq_copy_iff.2 (editCost_eq_zero_iff.1 h)

/-- A diff that costs nothing is the copy of its old side. -/
theorem eq_copy_of_editCost_eq_zero {d : Diff ℓ} (h : d.editCost = 0)
    (hbefore : d.before? = some a) : d = copy a := by
  obtain ⟨t, rfl⟩ := exists_eq_copy_of_editCost_eq_zero h
  rw [before?_copy, Option.some.injEq] at hbefore
  rw [hbefore]

/-- Diffs that cost nothing are the copies of their old sides. -/
theorem eq_map_copy_of_editCostAll_eq_zero {ds : List (Diff ℓ)} (h : editCostAll ds = 0)
    (hbefore : ds.filterMap before? = as) : ds = as.map copy := by
  have hcopies : ∀ d ∈ ds, ∃ t, d = copy t := fun d hd =>
    exists_eq_copy_of_editCost_eq_zero (editCostAll_eq_zero_iff.1 h d hd)
  obtain ⟨ts, rfl⟩ := exists_eq_map_copy hcopies
  rw [filterMap_map_copy fun t _ => before?_copy t] at hbefore
  rw [hbefore]

theorem zero_mem_costs_iff : 0 ∈ costs a b ↔ a = b := by
  constructor
  · rintro ⟨d, hbefore, hafter, hd⟩
    rw [eq_copy_of_editCost_eq_zero hd hbefore, after?_copy, Option.some.injEq] at hafter
    exact hafter
  · rintro rfl
    exact ⟨copy a, before?_copy a, after?_copy a, editCost_eq_zero_iff.2 (edits_copy a)⟩

theorem zero_mem_costsAll_iff : 0 ∈ costsAll as bs ↔ as = bs := by
  constructor
  · rintro ⟨ds, hbefore, hafter, hds⟩
    rw [eq_map_copy_of_editCostAll_eq_zero hds hbefore,
      filterMap_map_copy fun t _ => after?_copy t] at hafter
    exact hafter
  · rintro rfl
    refine ⟨as.map copy, filterMap_map_copy fun t _ => before?_copy t,
      filterMap_map_copy fun t _ => after?_copy t, ?_⟩
    exact editCostAll_eq_zero_iff.2
      (List.forall_mem_map.2 fun t _ => editCost_eq_zero_iff.2 (edits_copy t))

end TreeDiff.Diff
