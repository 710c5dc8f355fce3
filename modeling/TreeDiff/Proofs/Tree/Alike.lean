import Mathlib.Data.List.Forall2
import TreeDiff.Tree.Basic

/-!
# Trees of one shape

* `Tree.HasLabel`: a label stands somewhere in a tree.
* `Tree.Alike`: two trees of the same shape, with related labels at the same places. With equality
  as the relation these are equal trees, `Tree.Alike.eq`.
-/

namespace TreeDiff.Tree

variable {ℓ : Type}

/-- The label stands at a node of the tree. -/
inductive HasLabel (l : ℓ) : Tree ℓ → Prop
  /-- It stands at the root. -/
  | root {cs : List (Tree ℓ)} : HasLabel l (node l cs)
  /-- It stands in a child. -/
  | child {k : ℓ} {c : Tree ℓ} {cs : List (Tree ℓ)} :
    c ∈ cs → HasLabel l c → HasLabel l (node k cs)

/-- The two trees have the same shape, and related labels at the same places. -/
inductive Alike (R : ℓ → ℓ → Prop) : Tree ℓ → Tree ℓ → Prop
  | node {l k : ℓ} {cs ds : List (Tree ℓ)} :
    R l k → List.Forall₂ (Alike R) cs ds → Alike R (node l cs) (node k ds)

/-- Related lists stay related if the relation of their elements is weakened. -/
theorem forall₂_imp_of_mem {R R' : Tree ℓ → Tree ℓ → Prop} {ts us : List (Tree ℓ)}
    (h : List.Forall₂ R ts us) (hR : ∀ t ∈ ts, ∀ u, R t u → R' t u) : List.Forall₂ R' ts us := by
  rw [List.forall₂_iff_zip] at h ⊢
  exact ⟨h.1, fun htu => hR _ (List.of_mem_zip htu).1 _ (h.2 htu)⟩

namespace Alike

variable {R R' : ℓ → ℓ → Prop}

theorem refl (hR : ∀ l, R l l) (t : Tree ℓ) : t.Alike R t := by
  induction t using Tree.induct with
  | step l cs ih => exact .node (hR l) (List.forall₂_same.2 ih)

theorem mono (hR : ∀ l k, R l k → R' l k) {t u : Tree ℓ} (h : t.Alike R u) : t.Alike R' u := by
  induction t using Tree.induct generalizing u with
  | step l cs ih =>
    obtain ⟨hl, hcs⟩ := h
    exact .node (hR _ _ hl) (forall₂_imp_of_mem hcs fun c hc d hcd => ih c hc hcd)

/-- Trees of one shape with the same labels are equal. -/
theorem eq {t u : Tree ℓ} (h : t.Alike Eq u) : t = u := by
  induction t using Tree.induct generalizing u with
  | step l cs ih =>
    obtain ⟨rfl, hcs⟩ := h
    have hsame := forall₂_imp_of_mem hcs fun c hc d hcd => ih c hc hcd
    rw [List.forall₂_eq_eq_eq] at hsame
    rw [hsame]

end Alike

end TreeDiff.Tree
