import TreeDiff.Proofs.Diff.Metric
import TreeDiff.Proofs.Diff.Unchanged

/-!
# Common context

Trees in front of two lists, or after them, that are the same on both sides do not change the least
cost of a list of diffs. A list of diffs of the longer sides may match these trees with others; what
it costs to bring them into the shorter list and out of it again is what it costs to do without
them.

* `Diff.add_mem_costsAll_append`, `Diff.mem_costsAll_reverse`: lists of diffs one after the other,
  and from the last one to the first.
* `Diff.Within.of_cons_cons`, `Diff.Within.of_append_left`, `Diff.Within.of_append_right`: a tree,
  and a list of trees, that are left out on both sides.
* `Diff.isLeast_costsAll_context`: the least cost with and without common context.
-/

namespace TreeDiff.Diff

variable {ℓ : Type} {a : Tree ℓ} {as as' bs bs' : List (Tree ℓ)} {c c' : Nat}

/-! ## Lists of diffs in a row -/

theorem editCostAll_append (ds es : List (Diff ℓ)) :
    editCostAll (ds ++ es) = editCostAll ds + editCostAll es := by
  simp only [editCostAll_eq_sum, List.map_append, List.sum_append]

theorem editCostAll_reverse (ds : List (Diff ℓ)) : editCostAll ds.reverse = editCostAll ds := by
  simp only [editCostAll_eq_sum, List.map_reverse, List.sum_reverse]

theorem add_mem_costsAll_append (h : c ∈ costsAll as bs) (h' : c' ∈ costsAll as' bs') :
    c + c' ∈ costsAll (as ++ as') (bs ++ bs') := by
  obtain ⟨ds, rfl, rfl, rfl⟩ := h
  obtain ⟨es, rfl, rfl, rfl⟩ := h'
  exact ⟨ds ++ es, List.filterMap_append, List.filterMap_append, editCostAll_append ds es⟩

theorem mem_costsAll_reverse (h : c ∈ costsAll as bs) : c ∈ costsAll as.reverse bs.reverse := by
  obtain ⟨ds, rfl, rfl, rfl⟩ := h
  exact ⟨ds.reverse, List.filterMap_reverse, List.filterMap_reverse, editCostAll_reverse ds⟩

/-! ## Without the context -/

namespace Within

theorem reverse (h : Within as bs c) : Within as.reverse bs.reverse c := by
  obtain ⟨k, hk, hle⟩ := h
  exact ⟨k, mem_costsAll_reverse hk, hle⟩

/-- A first tree that is the same on both sides can be left out. If it is not matched with itself,
it is brought in or taken out at the cost at which the list of diffs loses or gains it. -/
theorem of_cons_cons (h : c ∈ costsAll (a :: as) (a :: bs)) : Within as bs c := by
  have hloss : ∀ ts : List (Tree ℓ), a.size ∈ costsAll (a :: ts) ts := fun ts =>
    add_mem_costsAll_left (zero_mem_costsAll_iff.2 rfl)
  have hgain : ∀ ts : List (Tree ℓ), a.size ∈ costsAll ts (a :: ts) := fun ts =>
    add_mem_costsAll_right (zero_mem_costsAll_iff.2 rfl)
  rcases mem_costsAll_cons_cons_iff.1 h with
    ⟨c', hc', rfl⟩ | ⟨c', hc', rfl⟩ | ⟨k, -, c', hc', rfl⟩
  · have htrans := trans (fun t _ => composes t) hc' (hloss bs)
    exact htrans.mono (by omega)
  · exact trans (fun t _ => composes t) (hgain as) hc'
  · exact (of_mem hc').mono (by omega)

/-- Trees in front that are the same on both sides can be left out. -/
theorem of_append_left (p : List (Tree ℓ)) (h : c ∈ costsAll (p ++ as) (p ++ bs)) :
    Within as bs c := by
  induction p generalizing c with
  | nil => exact of_mem h
  | cons a p ih =>
    obtain ⟨k, hk, hle⟩ := of_cons_cons h
    exact (ih hk).mono hle

/-- Trees at the end that are the same on both sides can be left out. -/
theorem of_append_right (s : List (Tree ℓ)) (h : c ∈ costsAll (as ++ s) (bs ++ s)) :
    Within as bs c := by
  have hreverse := mem_costsAll_reverse h
  rw [List.reverse_append, List.reverse_append] at hreverse
  simpa using (of_append_left s.reverse hreverse).reverse

end Within

/-! ## The least cost -/

/-- **Common context is free.** -/
theorem isLeast_costsAll_context (p s : List (Tree ℓ)) (h : IsLeast (costsAll as bs) c) :
    IsLeast (costsAll (p ++ as ++ s) (p ++ bs ++ s)) c := by
  have hcopy : ∀ ts : List (Tree ℓ), 0 ∈ costsAll ts ts := fun ts => zero_mem_costsAll_iff.2 rfl
  constructor
  · simpa using
      add_mem_costsAll_append (add_mem_costsAll_append (hcopy p) h.1) (hcopy s)
  · intro r hr
    obtain ⟨k, hk, hkr⟩ := Within.of_append_right s hr
    obtain ⟨j, hj, hjk⟩ := Within.of_append_left p hk
    exact (h.2 hj).trans (hjk.trans hkr)

end TreeDiff.Diff
