import TreeDiff.Proofs.Diff.Metric
import TreeDiff.Proofs.Diff.Unchanged
import TreeDiff.Proofs.Differ.Cheapest

/-!
# The edit cost of computed diffs is a distance

The differ at the edit cost finds cheapest diffs, so what it computes inherits what is true of the
least costs of diffs. The copy of a tree costs nothing and nothing else does, a diff can be read
backwards, and two diffs can be composed.

* `Differ.IsStandard.diffTrees_self`, `Differ.IsStandard.diffSequences_self`: the diffs of a tree,
  or of a list of trees, and itself are copies.
* `Differ.unchanged_iff_identical`: a diff is unchanged if and only if its sides are equal.
* `Differ.distance`: the cost of the diff of two trees.
* `Differ.standard_distance`: it is symmetric, and satisfies the triangle inequality.
-/

namespace TreeDiff.Differ

variable {m : Type → Type} [Monad m] [MonadLiftT (Except Fault) m] {ℓ : Type} {a b : Tree ℓ}
  {as : List (Tree ℓ)}

/-- The cost of the diff of two trees. -/
def distance (D : Differ m ℓ) (a b : Tree ℓ) : m Nat := do
  D.cost (← D.diffTrees a b)

variable [LawfulMonad m] [LawfulMonadLiftT (Except Fault) m] {D : Differ m ℓ}

section

variable (hD : D.IsStandard)
include hD

/-! ## Equal sides -/

/-- The diff of two trees is unchanged if and only if they are equal. -/
theorem IsStandard.diffTrees_isUnchanged_iff (hsize : a.size + b.size ≤ D.ceiling) :
    ∃ d, D.diffTrees a b = pure d ∧ (d.isUnchanged = true ↔ a = b) := by
  obtain ⟨d, hd, -, -, hleast⟩ := hD.diffTrees_isLeast hsize
  refine ⟨d, hd, ?_⟩
  rw [Diff.isUnchanged_iff, ← Diff.editCost_eq_zero_iff, ← Diff.zero_mem_costs_iff]
  constructor
  · intro h
    rw [← h]
    exact hleast.1
  · exact fun h => Nat.le_zero.1 (hleast.2 h)

theorem IsStandard.diffTrees_self (hsize : a.size + a.size ≤ D.ceiling) :
    D.diffTrees a a = pure (.copy a) := by
  obtain ⟨d, hd, hbefore, -, hleast⟩ := hD.diffTrees_isLeast hsize
  have hcost : d.editCost = 0 := Nat.le_zero.1 (hleast.2 (Diff.zero_mem_costs_iff.2 rfl))
  rw [hd, Diff.eq_copy_of_editCost_eq_zero hcost hbefore]

theorem IsStandard.diffSequences_self
    (hsize : Tree.nodesAll as + Tree.nodesAll as ≤ D.ceiling) :
    D.diffSequences as as = pure (as.map .copy) := by
  obtain ⟨ds, hds, hbefore, -, hleast⟩ := hD.diffSequences_isLeast hsize
  have hcost : Diff.editCostAll ds = 0 :=
    Nat.le_zero.1 (hleast.2 (Diff.zero_mem_costsAll_iff.2 rfl))
  rw [hds, Diff.eq_map_copy_of_editCostAll_eq_zero hcost hbefore]

/-! ## The distance -/

theorem IsStandard.distance_isLeast (hsize : a.size + b.size ≤ D.ceiling) :
    ∃ k, D.distance a b = pure k ∧ IsLeast (Diff.costs a b) k := by
  obtain ⟨d, hd, -, -, hleast⟩ := hD.diffTrees_isLeast hsize
  have hcost : d.editCost ≤ D.ceiling :=
    (hleast.2 (Diff.mem_costs_iff.2 (.inl rfl))).trans hsize
  refine ⟨d.editCost, ?_, hleast⟩
  rw [distance, hd, pure_bind, hD.chargesEdits.cost_eq_pure hcost]

/-- The distance is the least cost of a diff with the two trees as its sides. -/
theorem IsStandard.distance_eq {k : Nat} (hsize : a.size + b.size ≤ D.ceiling)
    (hk : IsLeast (Diff.costs a b) k) : D.distance a b = pure k := by
  obtain ⟨k', hk', hleast⟩ := hD.distance_isLeast hsize
  rw [hk', hleast.unique hk]

end

/-- **Unchanged means identical.** A diff without an edit costs nothing, and is the copy of a tree,
which then stands on both sides. The diff of two trees is of this kind if and only if they are
equal, whatever the tie break, and is then the copy of the tree; the diff of a list of trees and
itself is the list of the copies. -/
theorem unchanged_iff_identical [DecidableEq ℓ] (ceiling : Nat) :
    (∀ d : Diff ℓ, (d.isUnchanged = true ↔ d.editCost = 0) ∧
      (d.editCost = 0 ↔ ∃ t, d = .copy t) ∧
      ∀ t, d = .copy t → d.before? = some t ∧ d.after? = some t) ∧
    (∀ a b : Tree ℓ, a.size + b.size ≤ ceiling → ∀ settings, ∃ d,
      ({ standard ceiling with settings } : Differ m ℓ).diffTrees a b = pure d ∧
        (d.isUnchanged = true ↔ a = b)) ∧
    (∀ a : Tree ℓ, a.size + a.size ≤ ceiling → ∀ settings,
      ({ standard ceiling with settings } : Differ m ℓ).diffTrees a a = pure (.copy a)) ∧
    ∀ as : List (Tree ℓ), (as.map Tree.size).sum + (as.map Tree.size).sum ≤ ceiling →
      ∀ settings, ({ standard ceiling with settings } : Differ m ℓ).diffSequences as as =
        pure (as.map .copy) := by
  refine ⟨fun d => ⟨?_, ?_, ?_⟩, fun a b hsize settings => ?_, fun a hsize settings => ?_,
    fun as hsize settings => ?_⟩
  · rw [Diff.isUnchanged_iff, Diff.editCost_eq_zero_iff]
  · rw [Diff.editCost_eq_zero_iff, Diff.exists_eq_copy_iff]
  · rintro t rfl
    exact ⟨Diff.before?_copy t, Diff.after?_copy t⟩
  · exact (isStandard_standard ceiling settings).diffTrees_isUnchanged_iff hsize
  · exact (isStandard_standard ceiling settings).diffTrees_self hsize
  · rw [← Diff.nodesAll_eq_sum_size] at hsize
    exact (isStandard_standard ceiling settings).diffSequences_self hsize

theorem unchanged_iff_identical_maxCost :
    (∀ settings, ∃ d,
      ({ standard maxCost with settings } : Differ (Except Fault) Nat).diffTrees
          (.node 1 [.leaf 2, .leaf 2]) (.node 1 [.leaf 2]) = pure d ∧
        (d.isUnchanged = true ↔ Tree.node 1 [.leaf 2, .leaf 2] = .node 1 [.leaf 2])) ∧
    (∀ settings,
      ({ standard maxCost with settings } : Differ (Except Fault) Nat).diffTrees
          (.node 1 [.leaf 2, .leaf 2]) (.node 1 [.leaf 2, .leaf 2]) =
        pure (.copy (.node 1 [.leaf 2, .leaf 2]))) ∧
    ∀ settings,
      ({ standard maxCost with settings } : Differ (Except Fault) Nat).diffSequences
          [.leaf 2, .leaf 2] [.leaf 2, .leaf 2] = pure [.copy (.leaf 2), .copy (.leaf 2)] :=
  ⟨(unchanged_iff_identical maxCost).2.1 _ _ (by simp [Tree.size_eq_nodes, Tree.leaf, maxCost]),
    (unchanged_iff_identical maxCost).2.2.1 _ (by simp [Tree.size_eq_nodes, Tree.leaf, maxCost]),
    (unchanged_iff_identical maxCost).2.2.2 [.leaf 2, .leaf 2]
      (by simp [Tree.size_eq_nodes, Tree.leaf, maxCost])⟩

/-- **The cost of the diff of two trees is a distance.** It is symmetric and satisfies the triangle
inequality, whatever the tie breaks of the searches. -/
theorem standard_distance [DecidableEq ℓ] (ceiling : Nat) :
    (∀ a b : Tree ℓ, a.size + b.size ≤ ceiling → ∃ k, ∀ settings,
      ({ standard ceiling with settings } : Differ m ℓ).distance a b = pure k ∧
        ({ standard ceiling with settings } : Differ m ℓ).distance b a = pure k) ∧
    ∀ a b c : Tree ℓ, a.size + b.size ≤ ceiling → b.size + c.size ≤ ceiling →
      a.size + c.size ≤ ceiling → ∃ ab bc ac, ac ≤ ab + bc ∧ ∀ settings,
        ({ standard ceiling with settings } : Differ m ℓ).distance a b = pure ab ∧
          ({ standard ceiling with settings } : Differ m ℓ).distance b c = pure bc ∧
          ({ standard ceiling with settings } : Differ m ℓ).distance a c = pure ac := by
  have h : ∀ settings, ({ standard ceiling with settings } : Differ m ℓ).IsStandard :=
    isStandard_standard ceiling
  constructor
  · intro a b hab
    have hba : b.size + a.size ≤ ceiling := by rwa [Nat.add_comm]
    obtain ⟨k, -, hk⟩ := (h {}).distance_isLeast hab
    have hk' := hk
    rw [Diff.costs_comm] at hk'
    exact ⟨k, fun settings => ⟨(h settings).distance_eq hab hk, (h settings).distance_eq hba hk'⟩⟩
  · intro a b c hab hbc hac
    obtain ⟨ab, -, leastab⟩ := (h {}).distance_isLeast hab
    obtain ⟨bc, -, leastbc⟩ := (h {}).distance_isLeast hbc
    obtain ⟨ac, -, leastac⟩ := (h {}).distance_isLeast hac
    obtain ⟨k, hk, hle⟩ := Diff.composes a leastab.1 leastbc.1
    exact ⟨ab, bc, ac, (leastac.2 hk).trans hle, fun settings =>
      ⟨(h settings).distance_eq hab leastab, (h settings).distance_eq hbc leastbc,
        (h settings).distance_eq hac leastac⟩⟩

theorem standard_distance_maxCost :
    (∀ settings,
      ({ standard maxCost with settings } : Differ (Except Fault) Nat).distance
          (.node 1 [.leaf 2]) (.leaf 3) = pure 3 ∧
        ({ standard maxCost with settings } : Differ (Except Fault) Nat).distance
          (.leaf 3) (.node 1 [.leaf 2]) = pure 3) ∧
    3 ≤ 2 + 3 ∧ ∀ settings,
      ({ standard maxCost with settings } : Differ (Except Fault) Nat).distance
          (.node 1 [.leaf 2]) (.node 1 [.leaf 3]) = pure 2 ∧
        ({ standard maxCost with settings } : Differ (Except Fault) Nat).distance
          (.node 1 [.leaf 3]) (.leaf 3) = pure 3 ∧
        ({ standard maxCost with settings } : Differ (Except Fault) Nat).distance
          (.node 1 [.leaf 2]) (.leaf 3) = pure 3 := by
  obtain ⟨hsymmetric, htriangle⟩ := standard_distance (m := Except Fault) (ℓ := Nat) maxCost
  obtain ⟨k, hk⟩ := hsymmetric (.node 1 [.leaf 2]) (.leaf 3)
    (by simp [Tree.size_eq_nodes, Tree.leaf, maxCost])
  obtain ⟨ab, bc, ac, hle, hdistances⟩ := htriangle (.node 1 [.leaf 2]) (.node 1 [.leaf 3])
    (.leaf 3) (by simp [Tree.size_eq_nodes, Tree.leaf, maxCost])
    (by simp [Tree.size_eq_nodes, Tree.leaf, maxCost])
    (by simp [Tree.size_eq_nodes, Tree.leaf, maxCost])
  have hchange : (standard maxCost : Differ (Except Fault) Nat).distance (.node 1 [.leaf 2])
      (.node 1 [.leaf 3]) = pure 2 := by decide +kernel
  have hreplace : (standard maxCost : Differ (Except Fault) Nat).distance (.node 1 [.leaf 2])
      (.leaf 3) = pure 3 := by decide +kernel
  have hreplace' : (standard maxCost : Differ (Except Fault) Nat).distance (.node 1 [.leaf 3])
      (.leaf 3) = pure 3 := by decide +kernel
  cases hreplace.symm.trans (hk {}).1
  cases hchange.symm.trans (hdistances {}).1
  cases hreplace'.symm.trans (hdistances {}).2.1
  cases hreplace.symm.trans (hdistances {}).2.2
  exact ⟨hk, hle, hdistances⟩

end TreeDiff.Differ
