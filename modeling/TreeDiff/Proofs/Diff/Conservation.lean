import TreeDiff.Diff.EditCost

/-!
# Where the nodes of a diff go

A node on one side of a diff is lost or gained, and then counts in the edit cost, or it is matched,
and then stands on the other side as well. So the nodes of both sides are those that the diff
charges for, and two for every match. Of the diffs with given sides, those that cost the least are
those that match the most.

* `Diff.nodesAll_sides`: lists of diffs account for their nodes, if each of their diffs does.
* `Diff.size_before_add_size_after`: the account of a diff.
* `Diff.SameSides`: two diffs between the same trees.
* `Diff.conserves_nodes`: the account, and what it says of diffs with the same sides.
-/

namespace TreeDiff

/-- The nodes of a tree that may be missing. -/
theorem Tree.nodesAll_toList {ℓ : Type} (t? : Option (Tree ℓ)) :
    nodesAll t?.toList = t?.elim 0 size := by
  cases t? with
  | none => simp
  | some t => simp [size_eq_nodes]

namespace Diff

variable {ℓ : Type}

/-! ## The account -/

/-- The sides of a list of diffs have a node for every unit of its cost, and two for every matched
node, if the sides of each of its diffs do. -/
theorem nodesAll_sides {ds : List (Diff ℓ)}
    (h : ∀ d ∈ ds, d.before?.elim 0 Tree.size + d.after?.elim 0 Tree.size =
      d.editCost + 2 * d.matched) :
    Tree.nodesAll (ds.filterMap before?) + Tree.nodesAll (ds.filterMap after?) =
      editCostAll ds + 2 * matchedAll ds := by
  rw [← beforeAll_eq_filterMap, ← afterAll_eq_filterMap]
  induction ds with
  | nil => simp [beforeAll, afterAll]
  | cons d ds ih =>
    have hd := h d List.mem_cons_self
    have hds := ih fun e he => h e (List.mem_cons_of_mem d he)
    simp only [beforeAll, afterAll, Tree.nodesAll_append, Tree.nodesAll_toList, editCostAll_cons,
      matchedAll_cons]
    omega

/-- The sides of a diff have a node for every unit of its cost, and two for every matched node. -/
theorem size_before_add_size_after (d : Diff ℓ) :
    d.before?.elim 0 Tree.size + d.after?.elim 0 Tree.size = d.editCost + 2 * d.matched := by
  induction d using induct with
  | atEdit e => cases e <;> simp
  | atMerge l ds ih =>
    -- the matched root is a node of both sides
    have hds := nodesAll_sides ih
    simp only [before?_merge, after?_merge, Option.elim_some, Tree.size_eq_nodes, Tree.nodes_node,
      editCost_merge, matched_merge]
    omega

/-! ## Diffs between the same trees -/

/-- The two diffs have the same sides. -/
def SameSides (d e : Diff ℓ) : Prop := d.before? = e.before? ∧ d.after? = e.after?

/-- Of two diffs with the same sides, the one that matches more nodes costs less. -/
theorem SameSides.editCost_le_iff {d e : Diff ℓ} (h : SameSides d e) :
    d.editCost ≤ e.editCost ↔ e.matched ≤ d.matched := by
  have hd := d.size_before_add_size_after
  have he := e.size_before_add_size_after
  rw [h.1, h.2] at hd
  omega

/-- **Nodes are conserved**: the sides of a diff have a node for every unit of its cost, and two for
every matched node. So of the diffs with its sides, the diff is a cheapest one if and only if none
of them matches more nodes. -/
theorem conserves_nodes (d : Diff ℓ) :
    d.before?.elim 0 Tree.size + d.after?.elim 0 Tree.size = d.editCost + 2 * d.matched ∧
      (∀ e, SameSides d e → (d.editCost ≤ e.editCost ↔ e.matched ≤ d.matched)) ∧
      ((∀ e, SameSides d e → d.editCost ≤ e.editCost) ↔
        ∀ e, SameSides d e → e.matched ≤ d.matched) := by
  refine ⟨d.size_before_add_size_after, fun e h => h.editCost_le_iff, ?_⟩
  exact forall₂_congr fun e h => h.editCost_le_iff

/-- Two children change places: one of them may stay matched, or both are replaced. -/
theorem conserves_nodes_exchange :
    let d : Diff Nat :=
      .merge 0 [.edit (.insert (.leaf 2)), copy (.leaf 1), .edit (.delete (.leaf 2))]
    let e : Diff Nat :=
      .merge 0 [.edit (.replace (.leaf 1) (.leaf 2)), .edit (.replace (.leaf 2) (.leaf 1))]
    SameSides d e ∧ d.editCost = 2 ∧ e.editCost = 4 ∧
      (d.editCost ≤ e.editCost ↔ e.matched ≤ d.matched) := by
  intro d e
  have hsides : SameSides d e := by
    constructor <;> simp [d, e, Tree.leaf, copy_node]
  refine ⟨hsides, ?_, ?_, (conserves_nodes d).2.1 e hsides⟩
  · simp [d, Tree.leaf, copy_node, Tree.size_eq_nodes]
  · simp [e, Tree.leaf, Tree.size_eq_nodes]

end Diff

end TreeDiff
