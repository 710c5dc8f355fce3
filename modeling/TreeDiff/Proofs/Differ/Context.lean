import TreeDiff.Proofs.Diff.Context
import TreeDiff.Proofs.Differ.Recurrence

/-!
# Context in the sequences of a call

A call on two lists of trees may match a common tree with any other tree, in part, and what it
returns for the longer lists need not contain what it returns for the shorter ones. The costs are
the same nonetheless.

* `Differ.standard_context`: the costs of the calls with and without common context.
-/

namespace TreeDiff.Differ

variable {σ ℓ : Type} [DecidableEq ℓ]

/-- **Common context is free.** Diffs of two lists that both begin with `p` and end with `s` cost in
sum what the diffs of the lists without `p` and `s` do, if both calls return. They do so if no sum
of costs can lie above the ceiling. -/
theorem standard_context (ceiling : Nat) (settings : Settings) (p as bs s : List (Tree ℓ)) :
    (((p ++ as ++ s).map Tree.size).sum + ((p ++ bs ++ s).map Tree.size).sum ≤ ceiling →
      ∃ ds ds',
        ({ standard ceiling with settings } : Differ (Attempt σ) ℓ).diffSequences (p ++ as ++ s)
          (p ++ bs ++ s) = pure ds ∧
        ({ standard ceiling with settings } : Differ (Attempt σ) ℓ).diffSequences as bs =
          pure ds') ∧
      ∀ (ds ds' : List (Diff ℓ)) (x x' y y' : σ),
        ({ standard ceiling with settings } : Differ (Attempt σ) ℓ).diffSequences (p ++ as ++ s)
          (p ++ bs ++ s) x = .ok ds x' →
        ({ standard ceiling with settings } : Differ (Attempt σ) ℓ).diffSequences as bs y =
          .ok ds' y' →
        (ds.map Diff.editCost).sum = (ds'.map Diff.editCost).sum := by
  constructor
  · intro hsize
    simp only [← Diff.nodesAll_eq_sum_size] at hsize
    have hinner : Tree.nodesAll as + Tree.nodesAll bs ≤ ceiling := by
      simp only [Tree.nodesAll_append] at hsize
      omega
    have hD := isStandard_standard (m := Attempt σ) (ℓ := ℓ) ceiling settings
    obtain ⟨ds, hds, -⟩ := hD.diffSequences_isLeast hsize
    obtain ⟨ds', hds', -⟩ := hD.diffSequences_isLeast hinner
    exact ⟨ds, ds', hds, hds'⟩
  · intro ds ds' x x' y y' hlong hshort
    have hcontext := Diff.isLeast_costsAll_context p s (isLeast_of_diffSequences hshort)
    rw [← Diff.editCostAll_eq_sum, ← Diff.editCostAll_eq_sum]
    exact (isLeast_of_diffSequences hlong).unique hcontext

/-- The trees of the context match the one that is gained, so that the longer list of diffs does not
contain the shorter one. -/
theorem standard_context_maxCost :
    ∃ ds ds',
      (standard maxCost : Differ (Attempt Instant) Nat).diffSequences [.leaf 1, .leaf 2, .leaf 1]
        [.leaf 1, .leaf 1, .leaf 1] = pure ds ∧
      (standard maxCost : Differ (Attempt Instant) Nat).diffSequences [.leaf 2] [.leaf 1] =
        pure ds' ∧
      ds = [.edit (.insert (.leaf 1)), .merge 1 [], .edit (.delete (.leaf 2)), .merge 1 []] ∧
      ds' = [.edit (.delete (.leaf 2)), .edit (.insert (.leaf 1))] ∧
      (ds.map Diff.editCost).sum = (ds'.map Diff.editCost).sum ∧
      (ds'.map Diff.editCost).sum = 2 := by
  have hD := (isStandard_standard (m := Attempt Instant) (ℓ := Nat) maxCost {}).chargesEdits
  obtain ⟨hreturn, hsum⟩ := standard_context (σ := Instant) maxCost {} [.leaf 1] [.leaf 2]
    [.leaf 1] [.leaf 1]
  obtain ⟨ds, ds', hds, hds'⟩ := hreturn (by simp [Tree.size_eq_nodes, Tree.leaf, maxCost])
  have hrun := congrFun hds ⟨0⟩
  have hrun' := congrFun hds' ⟨0⟩
  have hscript : ds' = [.edit (.delete (.leaf 2)), .edit (.insert (.leaf 1))] := by
    rw [hD.eq_of_diffSequences hrun']
    decide +kernel
  refine ⟨ds, ds', hds, hds', ?_, hscript, hsum ds ds' ⟨0⟩ ⟨0⟩ ⟨0⟩ ⟨0⟩ hrun hrun', ?_⟩
  · rw [hD.eq_of_diffSequences hrun]
    decide +kernel
  · rw [hscript]
    simp [Tree.size_eq_nodes, Tree.leaf]

end TreeDiff.Differ
