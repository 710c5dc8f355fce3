import Mathlib.Data.List.Basic
import TreeDiff.Proofs.Diff.Costs

/-!
# The least costs of diffs as a distance

A diff read backwards has the same cost. Two diffs that meet in a common side can be composed: what
both of them match stays matched, what only one of them keeps is lost or gained, and the cost does
not exceed the sum. A replacement of the whole fits in since no diff loses more nodes than it costs.

* `Diff.inverse`: the diff read backwards. So `Diff.costs_comm`.
* `Diff.nodesAll_after_le`, `Diff.size_le_of_mem_costs`: the two sides of a diff differ in size by
  its cost at most.
* `Diff.Within`: some list of diffs with given sides costs no more than a bound.
* `Diff.Within.after_gain`, `Diff.Within.after_pair`: a list of diffs that goes on from a gained
  tree, or from the new side of a diff.
* `Diff.Within.trans`, `Diff.composes`: the triangle inequality, for lists of trees from the one for
  the trees of the first list, and by induction for all trees.
-/

namespace TreeDiff

/-- The edit read backwards. -/
def Edit.inverse {α : Type} : Edit α → Edit α
  | .insert new => .delete new
  | .delete old => .insert old
  | .replace old new => .replace new old

namespace Diff

variable {ℓ : Type} {a b c : Tree ℓ} {as bs cs : List (Tree ℓ)}

/-! ## Diffs read backwards -/

mutual

/-- The diff read backwards, with its sides exchanged. -/
def inverse : Diff ℓ → Diff ℓ
  | edit e => edit e.inverse
  | merge l ds => merge l (inverseAll ds)

/-- The diffs of a list, each of them read backwards. -/
def inverseAll : List (Diff ℓ) → List (Diff ℓ)
  | [] => []
  | d :: ds => inverse d :: inverseAll ds

end

theorem inverseAll_eq_map (ds : List (Diff ℓ)) : inverseAll ds = ds.map inverse := by
  induction ds with
  | nil => rw [inverseAll, List.map_nil]
  | cons d ds ih => rw [inverseAll, List.map_cons, ih]

@[simp] theorem inverse_edit (e : Edit (Tree ℓ)) : (edit e).inverse = edit e.inverse := by
  rw [inverse]

@[simp] theorem inverse_merge (l : ℓ) (ds : List (Diff ℓ)) :
    (merge l ds).inverse = merge l (ds.map inverse) := by
  rw [inverse, inverseAll_eq_map]

@[simp] theorem before?_inverse (d : Diff ℓ) : d.inverse.before? = d.after? := by
  induction d using induct with
  | atEdit e => cases e <;> simp [Edit.inverse]
  | atMerge l ds ih =>
    have hds : ds.filterMap (before? ∘ inverse) = ds.filterMap after? := List.filterMap_congr ih
    rw [inverse_merge, before?_merge, after?_merge, List.filterMap_map, hds]

@[simp] theorem after?_inverse (d : Diff ℓ) : d.inverse.after? = d.before? := by
  induction d using induct with
  | atEdit e => cases e <;> simp [Edit.inverse]
  | atMerge l ds ih =>
    have hds : ds.filterMap (after? ∘ inverse) = ds.filterMap before? := List.filterMap_congr ih
    rw [inverse_merge, after?_merge, before?_merge, List.filterMap_map, hds]

@[simp] theorem editCost_inverse (d : Diff ℓ) : d.inverse.editCost = d.editCost := by
  induction d using induct with
  | atEdit e => cases e <;> simp [Edit.inverse, Nat.add_comm]
  | atMerge l ds ih =>
    have hcosts : (ds.map inverse).map editCost = ds.map editCost := by
      rw [List.map_map]
      exact List.map_congr_left ih
    rw [inverse_merge, editCost_merge, editCost_merge, editCostAll_eq_sum, editCostAll_eq_sum,
      hcosts]

theorem costs_subset_costs_swap (a b : Tree ℓ) : costs a b ⊆ costs b a := by
  rintro _ ⟨d, hbefore, hafter, rfl⟩
  exact ⟨d.inverse, by rw [before?_inverse, hafter], by rw [after?_inverse, hbefore],
    editCost_inverse d⟩

/-- The costs are the same in both directions. -/
theorem costs_comm (a b : Tree ℓ) : costs a b = costs b a :=
  Set.Subset.antisymm (costs_subset_costs_swap a b) (costs_subset_costs_swap b a)

/-! ## Sizes -/

/-- The new side of a diff has no more nodes than the old side and what the diff costs. -/
theorem nodesAll_after_le (d : Diff ℓ) :
    Tree.nodesAll d.after?.toList ≤ Tree.nodesAll d.before?.toList + d.editCost := by
  induction d using induct with
  | atEdit e => cases e <;> simp [Tree.size_eq_nodes]; omega
  | atMerge l ds ih =>
    have hds : Tree.nodesAll (ds.filterMap after?) ≤
        Tree.nodesAll (ds.filterMap before?) + editCostAll ds := by
      rw [← beforeAll_eq_filterMap, ← afterAll_eq_filterMap]
      induction ds with
      | nil => simp [beforeAll, afterAll]
      | cons d ds ihds =>
        have hd := ih d List.mem_cons_self
        have hrest := ihds fun e he => ih e (List.mem_cons_of_mem d he)
        simp only [beforeAll, afterAll, Tree.nodesAll_append, editCostAll_cons]
        omega
    simp
    omega

theorem size_le_of_mem_costs {k : Nat} (h : k ∈ costs a b) : b.size ≤ a.size + k := by
  obtain ⟨d, hbefore, hafter, rfl⟩ := h
  have hd := d.nodesAll_after_le
  rw [hbefore, hafter] at hd
  simpa [Tree.size_eq_nodes] using hd

/-! ## Composition -/

/-- The diffs of the tree `a` can be composed with those that go on from their new sides. -/
def Composes (a : Tree ℓ) : Prop :=
  ∀ ⦃b c j k⦄, j ∈ costs a b → k ∈ costs b c → ∃ r ∈ costs a c, r ≤ j + k

/-- Some list of diffs with these sides costs no more than `n`. -/
def Within (as bs : List (Tree ℓ)) (n : Nat) : Prop := ∃ k ∈ costsAll as bs, k ≤ n

namespace Within

variable {j k n : Nat}

theorem of_mem (h : k ∈ costsAll as bs) : Within as bs k := ⟨k, h, Nat.le_refl k⟩

theorem mono (h : Within as bs n) (hle : n ≤ k) : Within as bs k := by
  obtain ⟨r, hr, hrn⟩ := h
  exact ⟨r, hr, hrn.trans hle⟩

theorem loss (h : Within as bs n) (hle : a.size + n ≤ k) : Within (a :: as) bs k := by
  obtain ⟨r, hr, hrn⟩ := h
  exact ⟨a.size + r, add_mem_costsAll_left hr, by omega⟩

theorem gain (h : Within as bs n) (hle : b.size + n ≤ k) : Within as (b :: bs) k := by
  obtain ⟨r, hr, hrn⟩ := h
  exact ⟨b.size + r, add_mem_costsAll_right hr, by omega⟩

theorem pair (h : Within as bs n) (hab : ∃ r ∈ costs a b, r ≤ j) (hle : j + n ≤ k) :
    Within (a :: as) (b :: bs) k := by
  obtain ⟨r, hr, hrn⟩ := h
  obtain ⟨q, hq, hqj⟩ := hab
  exact ⟨q + r, add_mem_costsAll_both hq hr, by omega⟩

/-- After the gain of a tree: a list of diffs that goes on from the tree loses it again, or makes
another one of it, which is gained instead. -/
theorem after_gain (h : ∀ {cs k}, k ∈ costsAll bs cs → Within as cs (j + k))
    (hk : k ∈ costsAll (b :: bs) cs) : Within as cs (b.size + j + k) := by
  induction cs generalizing k with
  | nil =>
    obtain ⟨k', hk', rfl⟩ := mem_costsAll_cons_nil_iff.1 hk
    exact (h hk').mono (by omega)
  | cons c cs ih =>
    rcases costsAll_cons_cases hk with ⟨k', hk', rfl⟩ | ⟨_, _, k', ⟨⟩, hk', rfl⟩ |
      ⟨_, _, kbc, k', ⟨⟩, hbc, hk', rfl⟩
    · exact (h hk').mono (by omega)
    · exact (ih hk').gain (by omega)
    · have hsize := size_le_of_mem_costs hbc
      exact (h hk').gain (by omega)

/-- After a diff of two trees: a list of diffs that goes on from the second one has a diff of it,
with which the first diff is composed, or loses it, so that the first tree is lost. -/
theorem after_pair {jab : Nat} (ha : Composes a) (hab : jab ∈ costs a b)
    (h : ∀ {cs k}, k ∈ costsAll bs cs → Within as cs (j + k))
    (hk : k ∈ costsAll (b :: bs) cs) : Within (a :: as) cs (jab + j + k) := by
  have hsize : a.size ≤ b.size + jab := size_le_of_mem_costs ((costs_comm a b).subset hab)
  induction cs generalizing k with
  | nil =>
    obtain ⟨k', hk', rfl⟩ := mem_costsAll_cons_nil_iff.1 hk
    exact (h hk').loss (by omega)
  | cons c cs ih =>
    rcases costsAll_cons_cases hk with ⟨k', hk', rfl⟩ | ⟨_, _, k', ⟨⟩, hk', rfl⟩ |
      ⟨_, _, kbc, k', ⟨⟩, hbc, hk', rfl⟩
    · exact (h hk').loss (by omega)
    · exact (ih hk').gain (by omega)
    · exact (h hk').pair (ha hab hbc) (by omega)

/-- Lists of diffs can be composed if the diffs of the trees of the first list can. -/
theorem trans (h : ∀ a ∈ as, Composes a) (hj : j ∈ costsAll as bs) (hk : k ∈ costsAll bs cs) :
    Within as cs (j + k) := by
  induction as generalizing bs cs j k with
  | nil =>
    induction bs generalizing cs j k with
    | nil => exact (of_mem hk).mono (Nat.le_add_left k j)
    | cons b bs ihbs =>
      obtain ⟨j', hj', rfl⟩ := mem_costsAll_nil_cons_iff.1 hj
      exact after_gain (ihbs hj') hk
  | cons a as ihas =>
    have has : ∀ t ∈ as, Composes t := fun t ht => h t (List.mem_cons_of_mem a ht)
    induction bs generalizing cs j k with
    | nil =>
      obtain ⟨j', hj', rfl⟩ := mem_costsAll_cons_nil_iff.1 hj
      exact (ihas has hj' hk).loss (by omega)
    | cons b bs ihbs =>
      rcases costsAll_cons_cases hj with ⟨j', hj', rfl⟩ | ⟨_, _, j', ⟨⟩, hj', rfl⟩ |
        ⟨_, _, jab, j', ⟨⟩, hab, hj', rfl⟩
      · exact (ihas has hj' hk).loss (by omega)
      · exact after_gain (ihbs hj') hk
      · exact after_pair (h a List.mem_cons_self) hab (ihas has hj') hk

end Within

/-- The triangle inequality. -/
theorem composes (a : Tree ℓ) : Composes a := by
  induction a using Tree.induct with
  | step l as ih =>
    intro b c j k hj hk
    have hback := size_le_of_mem_costs ((costs_comm _ _).subset hj)
    have hforth := size_le_of_mem_costs hk
    have hreplace := mem_costs_iff (a := .node l as) (b := c).2 (.inl rfl)
    rcases mem_costs_iff.1 hj with rfl | ⟨hab, hj'⟩
    · exact ⟨_, hreplace, by omega⟩
    · rcases mem_costs_iff.1 hk with rfl | ⟨hbc, hk'⟩
      · exact ⟨_, hreplace, by omega⟩
      · obtain ⟨r, hr, hle⟩ := Within.trans ih hj' hk'
        exact ⟨r, mem_costs_iff.2 (.inr ⟨hab.trans hbc, hr⟩), hle⟩

end Diff

end TreeDiff
