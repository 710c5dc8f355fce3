import Mathlib.Algebra.GroupWithZero.Nat
import Mathlib.Order.Bounds.Basic
import TreeDiff.Diff.EditCost

/-!
# The costs of diffs with given sides

The diffs with two given sides are the replacement and, if the labels are the same, the matched
nodes; the lists of diffs with two given lists of sides begin with a loss, a gain, or a diff of the
two heads. The sets of their edit costs satisfy the corresponding equations, and so do the least
elements of these sets.

* `Diff.costs`, `Diff.costsAll`: the edit costs of the diffs, and of the lists of diffs, with given
  sides.
* `Diff.mem_costs_iff`, `Diff.costsAll_cases`: the equations.
* `Diff.isLeast_costs_of_label_eq`, `Diff.isLeast_costsAll_cons_cons`: the least costs.
-/

namespace TreeDiff.Diff

variable {ℓ : Type} {a b : Tree ℓ} {as bs : List (Tree ℓ)}

/-- The edit costs of the diffs with the sides `a` and `b`. -/
def costs (a b : Tree ℓ) : Set Nat :=
  {c | ∃ d : Diff ℓ, d.before? = some a ∧ d.after? = some b ∧ d.editCost = c}

/-- The edit costs of the lists of diffs whose old sides are `as` and whose new sides are `bs`. -/
def costsAll (as bs : List (Tree ℓ)) : Set Nat :=
  {c | ∃ ds : List (Diff ℓ), ds.filterMap before? = as ∧ ds.filterMap after? = bs ∧
    editCostAll ds = c}

/-! ## Lists of diffs -/

/-- A diff is a loss, a gain, or has both sides. -/
theorem sides_cases (d : Diff ℓ) : (∃ a, d = .edit (.delete a)) ∨ (∃ b, d = .edit (.insert b)) ∨
    ∃ a b, d.before? = some a ∧ d.after? = some b := by
  match d with
  | .edit (.delete a) => exact .inl ⟨a, rfl⟩
  | .edit (.insert b) => exact .inr (.inl ⟨b, rfl⟩)
  | .edit (.replace a b) => exact .inr (.inr ⟨a, b, by simp, by simp⟩)
  | .merge l ds => exact .inr (.inr ⟨_, _, before?_merge l ds, after?_merge l ds⟩)

theorem zero_mem_costsAll : 0 ∈ costsAll ([] : List (Tree ℓ)) [] := ⟨[], rfl, rfl, by simp⟩

theorem add_mem_costsAll_left {c : Nat} (h : c ∈ costsAll as bs) :
    a.size + c ∈ costsAll (a :: as) bs := by
  obtain ⟨ds, rfl, rfl, rfl⟩ := h
  exact ⟨.edit (.delete a) :: ds, by simp, by simp, by simp⟩

theorem add_mem_costsAll_right {c : Nat} (h : c ∈ costsAll as bs) :
    b.size + c ∈ costsAll as (b :: bs) := by
  obtain ⟨ds, rfl, rfl, rfl⟩ := h
  exact ⟨.edit (.insert b) :: ds, by simp, by simp, by simp⟩

theorem add_mem_costsAll_both {k c : Nat} (hk : k ∈ costs a b) (h : c ∈ costsAll as bs) :
    k + c ∈ costsAll (a :: as) (b :: bs) := by
  obtain ⟨d, hbefore, hafter, rfl⟩ := hk
  obtain ⟨ds, rfl, rfl, rfl⟩ := h
  exact ⟨d :: ds, by simp [hbefore], by simp [hafter], by simp⟩

/-- A list of diffs with a first one has the sides of this one in front. -/
theorem costsAll_cases {c : Nat} (h : c ∈ costsAll as bs) :
    (as = [] ∧ bs = [] ∧ c = 0) ∨
      (∃ a as' c', as = a :: as' ∧ c' ∈ costsAll as' bs ∧ c = a.size + c') ∨
      (∃ b bs' c', bs = b :: bs' ∧ c' ∈ costsAll as bs' ∧ c = b.size + c') ∨
      ∃ a as' b bs' k c', as = a :: as' ∧ bs = b :: bs' ∧ k ∈ costs a b ∧
        c' ∈ costsAll as' bs' ∧ c = k + c' := by
  obtain ⟨ds, rfl, rfl, rfl⟩ := h
  cases ds with
  | nil => exact .inl ⟨rfl, rfl, by simp⟩
  | cons d ds =>
    have hds : editCostAll ds ∈ costsAll (ds.filterMap before?) (ds.filterMap after?) :=
      ⟨ds, rfl, rfl, rfl⟩
    right
    rcases d.sides_cases with ⟨a, rfl⟩ | ⟨b, rfl⟩ | ⟨a, b, hbefore, hafter⟩
    · left
      exact ⟨a, ds.filterMap before?, _, by simp, by simpa using hds, by simp⟩
    · right; left
      exact ⟨b, ds.filterMap after?, _, by simp, by simpa using hds, by simp⟩
    · right; right
      refine ⟨a, _, b, _, _, _, ?_, ?_, ⟨d, hbefore, hafter, rfl⟩, hds, by simp⟩
      · rw [List.filterMap_cons_some hbefore]
      · rw [List.filterMap_cons_some hafter]

/-- The first old side is lost or has a new side, or a gain comes before it. -/
theorem costsAll_cons_cases {c : Nat} (h : c ∈ costsAll (a :: as) bs) :
    (∃ c' ∈ costsAll as bs, c = a.size + c') ∨
      (∃ b bs' c', bs = b :: bs' ∧ c' ∈ costsAll (a :: as) bs' ∧ c = b.size + c') ∨
      ∃ b bs' k c', bs = b :: bs' ∧ k ∈ costs a b ∧ c' ∈ costsAll as bs' ∧ c = k + c' := by
  rcases costsAll_cases h with ⟨hnil, -⟩ | ⟨_, _, c', hcons, hc', rfl⟩ | hgain |
    ⟨_, _, b, bs', k, c', hcons, rfl, hk, hc', rfl⟩
  · cases hnil
  · cases hcons
    exact .inl ⟨c', hc', rfl⟩
  · exact .inr (.inl hgain)
  · cases hcons
    exact .inr (.inr ⟨b, bs', k, c', rfl, hk, hc', rfl⟩)

theorem mem_costsAll_cons_nil_iff {c : Nat} :
    c ∈ costsAll (a :: as) [] ↔ ∃ c' ∈ costsAll as [], c = a.size + c' := by
  constructor
  · intro hc
    rcases costsAll_cases hc with
      ⟨h, -⟩ | ⟨_, _, c', h, hc', rfl⟩ | ⟨_, _, _, h, -⟩ | ⟨_, _, _, _, _, _, -, h, -⟩ <;> cases h
    exact ⟨c', hc', rfl⟩
  · rintro ⟨c', hc', rfl⟩
    exact add_mem_costsAll_left hc'

theorem mem_costsAll_nil_cons_iff {c : Nat} :
    c ∈ costsAll [] (b :: bs) ↔ ∃ c' ∈ costsAll [] bs, c = b.size + c' := by
  constructor
  · intro hc
    rcases costsAll_cases hc with
      ⟨-, h, -⟩ | ⟨_, _, _, h, -⟩ | ⟨_, _, c', h, hc', rfl⟩ | ⟨_, _, _, _, _, _, h, -⟩ <;> cases h
    exact ⟨c', hc', rfl⟩
  · rintro ⟨c', hc', rfl⟩
    exact add_mem_costsAll_right hc'

theorem mem_costsAll_cons_cons_iff {c : Nat} : c ∈ costsAll (a :: as) (b :: bs) ↔
    (∃ c' ∈ costsAll as (b :: bs), c = a.size + c') ∨
      (∃ c' ∈ costsAll (a :: as) bs, c = b.size + c') ∨
      ∃ k ∈ costs a b, ∃ c' ∈ costsAll as bs, c = k + c' := by
  constructor
  · intro hc
    rcases costsAll_cases hc with ⟨h, -⟩ | ⟨_, _, c', h, hc', rfl⟩ | ⟨_, _, c', h, hc', rfl⟩ |
      ⟨_, _, _, _, k, c', h, h', hk, hc', rfl⟩
    · cases h
    · cases h
      exact .inl ⟨c', hc', rfl⟩
    · cases h
      exact .inr (.inl ⟨c', hc', rfl⟩)
    · cases h
      cases h'
      exact .inr (.inr ⟨k, hk, c', hc', rfl⟩)
  · rintro (⟨c', hc', rfl⟩ | ⟨c', hc', rfl⟩ | ⟨k, hk, c', hc', rfl⟩)
    · exact add_mem_costsAll_left hc'
    · exact add_mem_costsAll_right hc'
    · exact add_mem_costsAll_both hk hc'

/-- All trees of the two lists can be lost and gained one by one. -/
theorem nodesAll_add_mem_costsAll (as bs : List (Tree ℓ)) :
    Tree.nodesAll as + Tree.nodesAll bs ∈ costsAll as bs := by
  induction as with
  | nil =>
    induction bs with
    | nil => simpa using zero_mem_costsAll
    | cons b bs ih =>
      have h := add_mem_costsAll_right (b := b) ih
      rwa [Tree.size_eq_nodes, Nat.add_left_comm, ← Tree.nodesAll_cons] at h
  | cons a as ih =>
    have h := add_mem_costsAll_left (a := a) ih
    rwa [Tree.size_eq_nodes, ← Nat.add_assoc, ← Tree.nodesAll_cons] at h

theorem nodesAll_eq_sum_size (ts : List (Tree ℓ)) :
    Tree.nodesAll ts = (ts.map Tree.size).sum := by
  induction ts with
  | nil => rw [Tree.nodesAll_nil, List.map_nil, List.sum_nil]
  | cons t ts ih => rw [Tree.nodesAll_cons, List.map_cons, List.sum_cons, ih, Tree.size_eq_nodes]

theorem editCost_delete_le (h : a ∈ as) : (edit (.delete a)).editCost ≤ Tree.nodesAll as := by
  rw [editCost_delete]
  exact Tree.size_le_nodesAll h

theorem editCost_insert_le (h : b ∈ bs) : (edit (.insert b)).editCost ≤ Tree.nodesAll bs := by
  rw [editCost_insert]
  exact Tree.size_le_nodesAll h

theorem editCostAll_eq_sum (ds : List (Diff ℓ)) : editCostAll ds = (ds.map editCost).sum := by
  induction ds with
  | nil => rw [editCostAll_nil, List.map_nil, List.sum_nil]
  | cons d ds ih => rw [editCostAll_cons, List.map_cons, List.sum_cons, ih]

/-! ## Single diffs -/

/-- A diff of two trees is their replacement or a match of their roots. -/
theorem mem_costs_iff {c : Nat} : c ∈ costs a b ↔
    c = a.size + b.size ∨ (a.label = b.label ∧ c ∈ costsAll a.children b.children) := by
  constructor
  · rintro ⟨d, hbefore, hafter, rfl⟩
    match d with
    | .edit (.replace a' b') =>
      simp only [before?_edit, Edit.before?_replace, Option.some.injEq] at hbefore
      simp only [after?_edit, Edit.after?_replace, Option.some.injEq] at hafter
      left
      rw [editCost_replace, hbefore, hafter]
    | .edit (.insert b') => simp at hbefore
    | .edit (.delete a') => simp at hafter
    | .merge l ds =>
      simp only [before?_merge, Option.some.injEq] at hbefore
      simp only [after?_merge, Option.some.injEq] at hafter
      subst hbefore hafter
      right
      exact ⟨rfl, ds, rfl, rfl, (editCost_merge l ds).symm⟩
  · rintro (rfl | ⟨hlabel, ds, hbefore, hafter, rfl⟩)
    · exact ⟨.edit (.replace a b), by simp, by simp, by simp⟩
    · refine ⟨.merge a.label ds, ?_, ?_, by simp⟩
      · rw [before?_merge, hbefore, Tree.node_label_children]
      · rw [after?_merge, hafter, hlabel, Tree.node_label_children]

/-! ## Least costs -/

variable {c c₁ c₂ c₃ k : Nat}

theorem isLeast_costs_of_label_ne (h : a.label ≠ b.label) :
    IsLeast (costs a b) (a.size + b.size) := by
  refine ⟨mem_costs_iff.2 (.inl rfl), fun c hc => ?_⟩
  rcases mem_costs_iff.1 hc with rfl | ⟨hlabel, -⟩
  · exact Nat.le_refl _
  · exact absurd hlabel h

theorem le_nodesAll_of_isLeast (h : IsLeast (costsAll as bs) c) :
    c ≤ Tree.nodesAll as + Tree.nodesAll bs :=
  h.2 (nodesAll_add_mem_costsAll as bs)

/-- A cheapest diff of trees with the same label matches their roots. -/
theorem isLeast_costs_of_label_eq (h : a.label = b.label)
    (hc : IsLeast (costsAll a.children b.children) c) : IsLeast (costs a b) c := by
  refine ⟨mem_costs_iff.2 (.inr ⟨h, hc.1⟩), fun c' hc' => ?_⟩
  rcases mem_costs_iff.1 hc' with rfl | ⟨-, hc'⟩
  · have hle := le_nodesAll_of_isLeast hc
    have ha := a.size_eq_nodesAll_children
    have hb := b.size_eq_nodesAll_children
    omega
  · exact hc.2 hc'

theorem isLeast_costsAll_nil : IsLeast (costsAll ([] : List (Tree ℓ)) []) 0 :=
  ⟨zero_mem_costsAll, fun _ _ => Nat.zero_le _⟩

theorem isLeast_costsAll_cons_nil (h : IsLeast (costsAll as []) c) :
    IsLeast (costsAll (a :: as) []) (a.size + c) := by
  refine ⟨add_mem_costsAll_left h.1, fun r hr => ?_⟩
  obtain ⟨c', hc', rfl⟩ := mem_costsAll_cons_nil_iff.1 hr
  exact Nat.add_le_add_left (h.2 hc') _

theorem isLeast_costsAll_nil_cons (h : IsLeast (costsAll [] bs) c) :
    IsLeast (costsAll [] (b :: bs)) (b.size + c) := by
  refine ⟨add_mem_costsAll_right h.1, fun r hr => ?_⟩
  obtain ⟨c', hc', rfl⟩ := mem_costsAll_nil_cons_iff.1 hr
  exact Nat.add_le_add_left (h.2 hc') _

theorem isLeast_costsAll_cons_cons (hlost : IsLeast (costsAll as (b :: bs)) c₁)
    (hgained : IsLeast (costsAll (a :: as) bs) c₂) (hk : IsLeast (costs a b) k)
    (hboth : IsLeast (costsAll as bs) c₃) :
    IsLeast (costsAll (a :: as) (b :: bs)) (min (min (a.size + c₁) (b.size + c₂)) (k + c₃)) := by
  constructor
  · have h₁ := add_mem_costsAll_left (a := a) hlost.1
    have h₂ := add_mem_costsAll_right (b := b) hgained.1
    have h₃ := add_mem_costsAll_both hk.1 hboth.1
    rcases Nat.le_total (a.size + c₁) (b.size + c₂) with h | h <;>
      rcases Nat.le_total (min (a.size + c₁) (b.size + c₂)) (k + c₃) with h' | h' <;>
      simp_all
  · intro r hr
    rcases mem_costsAll_cons_cons_iff.1 hr with
      ⟨c', hc', rfl⟩ | ⟨c', hc', rfl⟩ | ⟨k', hk', c', hc', rfl⟩
    · have hle := hlost.2 hc'
      omega
    · have hle := hgained.2 hc'
      omega
    · have hle := hk.2 hk'
      have hle' := hboth.2 hc'
      omega

/-- Trees with different labels are not cheaper to replace than to lose and gain. -/
theorem isLeast_costsAll_of_label_ne (h : a.label ≠ b.label)
    (hlost : IsLeast (costsAll as (b :: bs)) c₁) (hgained : IsLeast (costsAll (a :: as) bs) c₂)
    (hboth : IsLeast (costsAll as bs) c₃) :
    IsLeast (costsAll (a :: as) (b :: bs)) (min (a.size + c₁) (b.size + c₂)) := by
  have hleast := isLeast_costsAll_cons_cons hlost hgained (isLeast_costs_of_label_ne h) hboth
  have hle : c₁ ≤ b.size + c₃ := hlost.2 (add_mem_costsAll_right hboth.1)
  rwa [Nat.min_eq_left (by omega)] at hleast

end TreeDiff.Diff
