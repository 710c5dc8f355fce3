import TreeDiff.Diff.Basic

/-!
# The kinds of edits in a diff

* `Diff.edits`: all edits of a diff, from the first child to the last.
* `Diff.kinds`: the kinds of these edits, collected with a list of the diffs still to be looked
  at. A kind is in the set if and only if an edit of that kind occurs (`Diff.contains_kinds_iff`).
* `Diff.isUnchanged`: no edit occurs.
* `Diff.matchesFilter`: an edit that the filter admits occurs.
-/

namespace TreeDiff.Diff

variable {ℓ : Type}

mutual

/-- All edits of a diff. -/
def edits : Diff ℓ → List (Edit (Tree ℓ))
  | edit e => [e]
  | merge _ ds => editsAll ds

/-- All edits of the diffs of a list. -/
def editsAll : List (Diff ℓ) → List (Edit (Tree ℓ))
  | [] => []
  | d :: ds => edits d ++ editsAll ds

end

@[simp] theorem edits_edit (e : Edit (Tree ℓ)) : (edit e).edits = [e] := by rw [edits]

@[simp] theorem edits_merge (l : ℓ) (ds : List (Diff ℓ)) :
    (merge l ds).edits = editsAll ds := by rw [edits]

@[simp] theorem editsAll_nil : editsAll ([] : List (Diff ℓ)) = [] := by rw [editsAll]

@[simp] theorem editsAll_cons (d : Diff ℓ) (ds : List (Diff ℓ)) :
    editsAll (d :: ds) = d.edits ++ editsAll ds := by rw [editsAll]

theorem editsAll_eq_flatMap (ds : List (Diff ℓ)) : editsAll ds = ds.flatMap edits := by
  induction ds with
  | nil => simp
  | cons d ds ih => simp [ih]

@[simp] theorem editsAll_append (ds es : List (Diff ℓ)) :
    editsAll (ds ++ es) = editsAll ds ++ editsAll es := by
  simp [editsAll_eq_flatMap]

/-- Collects the kinds of the edits of the diffs in `pending`, on top of the kinds found so far. A
matched node is replaced by its children. -/
def kindsPending (found : KindSet) : (pending : List (Diff ℓ)) → KindSet
  | [] => found
  | edit e :: rest => kindsPending (found ∪ .single e.kind) rest
  | merge _ ds :: rest => kindsPending found (ds ++ rest)
termination_by pending => nodesAll pending
decreasing_by
  · simp only [nodesAll_cons, nodes_edit]; omega
  · simp only [nodesAll_append, nodesAll_cons, nodes_merge]; omega

/-- The kinds of the edits of a diff. -/
def kinds (d : Diff ℓ) : KindSet := kindsPending .empty [d]

/-- The diff has no edit. -/
def isUnchanged (d : Diff ℓ) : Bool := d.kinds.isEmpty

/-- The filter and the kinds of the diff have a kind in common. -/
def matchesFilter (d : Diff ℓ) (filter : KindSet) : Bool := filter.intersects d.kinds

theorem contains_kindsPending (found : KindSet) (pending : List (Diff ℓ)) (k : EditKind) :
    (kindsPending found pending).contains k = true ↔
      found.contains k = true ∨ ∃ e ∈ editsAll pending, e.kind = k := by
  induction found, pending using kindsPending.induct with
  | case1 found => simp [kindsPending]
  | case2 found e rest ih => simp [kindsPending, ih, or_assoc]
  | case3 found l ds rest ih => simp [kindsPending, ih]

/-- A kind is among the kinds of a diff if and only if an edit of that kind occurs. -/
theorem contains_kinds_iff (d : Diff ℓ) (k : EditKind) :
    d.kinds.contains k = true ↔ ∃ e ∈ d.edits, e.kind = k := by
  simp [kinds, contains_kindsPending]

theorem isUnchanged_iff (d : Diff ℓ) : d.isUnchanged = true ↔ d.edits = [] := by
  rw [isUnchanged, KindSet.isEmpty_iff]
  constructor
  · intro h
    refine List.eq_nil_iff_forall_not_mem.2 fun e he => ?_
    have hk := (contains_kinds_iff d e.kind).2 ⟨e, he, rfl⟩
    simp [h] at hk
  · intro h
    refine KindSet.ext_contains fun k => ?_
    have hk := contains_kinds_iff d k
    simpa [h] using hk

end TreeDiff.Diff
