import TreeDiff.Edit.Basic
import TreeDiff.Tree.Basic

/-!
# Diffs of trees

A diff is an edit of whole trees, or a matched pair of nodes with one label, over the diffs of
their children.

* `Diff.induct`: the induction principle with one hypothesis for every child.
* `Diff.copy`: the diff of a tree and itself, matched throughout.
* `Diff.before?`, `Diff.after?`: the two sides of a diff. An insertion has no old side and a
  deletion no new one; the sides of a matched node are made of the sides of its children.
* `Diff.beforeAll`, `Diff.afterAll`: the sides of a list of diffs, those that there are
  (`Diff.beforeAll_eq_filterMap`, `Diff.afterAll_eq_filterMap`).
* `Diff.matched`: the number of matched nodes.
-/

namespace TreeDiff

/-- An edit of whole trees, or a matched node over the diffs of its children. -/
inductive Diff (ℓ : Type) where
  | edit (e : Edit (Tree ℓ))
  | merge (label : ℓ) (children : List (Diff ℓ))

namespace Diff

variable {ℓ : Type}

/-- Induction on diffs: edits, and what passes from all children of a matched node to the node. -/
@[elab_as_elim]
theorem induct {motive : Diff ℓ → Prop} (atEdit : ∀ e, motive (edit e))
    (atMerge : ∀ l ds, (∀ d ∈ ds, motive d) → motive (merge l ds)) : ∀ d, motive d
  | edit e => atEdit e
  | merge l ds => atMerge l ds fun d hd =>
    have : sizeOf d < sizeOf ds := List.sizeOf_lt_of_mem hd
    induct atEdit atMerge d
termination_by d => sizeOf d
decreasing_by simp only [merge.sizeOf_spec]; omega

/-! ## Equality -/

section

variable [DecidableEq ℓ]

mutual

/-- Decides whether two diffs are equal. -/
def decEq : (d e : Diff ℓ) → Decidable (d = e)
  | edit e, edit f =>
    if h : e = f then .isTrue (by rw [h]) else .isFalse fun h' => h (edit.inj h')
  | edit _, merge _ _ => .isFalse nofun
  | merge _ _, edit _ => .isFalse nofun
  | merge l ds, merge k es =>
    if hl : l = k then
      match decEqAll ds es with
      | .isTrue h => .isTrue (by rw [hl, h])
      | .isFalse h => .isFalse fun h' => h (merge.inj h').2
    else .isFalse fun h' => hl (merge.inj h').1

/-- Decides whether two lists of diffs are equal. -/
def decEqAll : (ds es : List (Diff ℓ)) → Decidable (ds = es)
  | [], [] => .isTrue rfl
  | [], _ :: _ => .isFalse nofun
  | _ :: _, [] => .isFalse nofun
  | d :: ds, e :: es =>
    match decEq d e, decEqAll ds es with
    | .isTrue h, .isTrue hs => .isTrue (by rw [h, hs])
    | .isFalse h, _ => .isFalse fun h' => h (List.cons.inj h').1
    | _, .isFalse hs => .isFalse fun h' => hs (List.cons.inj h').2

end

instance : DecidableEq (Diff ℓ) := decEq

end

/-! ## Copies -/

mutual

/-- The diff of a tree and itself. -/
def copy : Tree ℓ → Diff ℓ
  | .node l cs => merge l (copyAll cs)

/-- The copies of the trees of a list. -/
def copyAll : List (Tree ℓ) → List (Diff ℓ)
  | [] => []
  | t :: ts => copy t :: copyAll ts

end

theorem copyAll_eq_map (ts : List (Tree ℓ)) : copyAll ts = ts.map copy := by
  induction ts with
  | nil => rw [copyAll, List.map_nil]
  | cons t ts ih => rw [copyAll, List.map_cons, ih]

theorem copy_node (l : ℓ) (cs : List (Tree ℓ)) : copy (.node l cs) = merge l (cs.map copy) := by
  rw [copy, copyAll_eq_map]

/-! ## Sides -/

mutual

/-- The old side of a diff, if there is one. -/
def before? : Diff ℓ → Option (Tree ℓ)
  | edit e => e.before?
  | merge l ds => some (.node l (beforeAll ds))

/-- The old sides of the diffs of a list, those that there are. -/
def beforeAll : List (Diff ℓ) → List (Tree ℓ)
  | [] => []
  | d :: ds => (before? d).toList ++ beforeAll ds

end

mutual

/-- The new side of a diff, if there is one. -/
def after? : Diff ℓ → Option (Tree ℓ)
  | edit e => e.after?
  | merge l ds => some (.node l (afterAll ds))

/-- The new sides of the diffs of a list, those that there are. -/
def afterAll : List (Diff ℓ) → List (Tree ℓ)
  | [] => []
  | d :: ds => (after? d).toList ++ afterAll ds

end

theorem beforeAll_eq_filterMap (ds : List (Diff ℓ)) : beforeAll ds = ds.filterMap before? := by
  induction ds with
  | nil => rw [beforeAll, List.filterMap_nil]
  | cons d ds ih =>
    rw [beforeAll, ih, List.filterMap_cons]
    cases before? d <;> rfl

theorem afterAll_eq_filterMap (ds : List (Diff ℓ)) : afterAll ds = ds.filterMap after? := by
  induction ds with
  | nil => rw [afterAll, List.filterMap_nil]
  | cons d ds ih =>
    rw [afterAll, ih, List.filterMap_cons]
    cases after? d <;> rfl

@[simp] theorem before?_edit (e : Edit (Tree ℓ)) : (edit e).before? = e.before? := by rw [before?]

@[simp] theorem after?_edit (e : Edit (Tree ℓ)) : (edit e).after? = e.after? := by rw [after?]

@[simp] theorem before?_merge (l : ℓ) (ds : List (Diff ℓ)) :
    (merge l ds).before? = some (.node l (ds.filterMap before?)) := by
  rw [before?, beforeAll_eq_filterMap]

@[simp] theorem after?_merge (l : ℓ) (ds : List (Diff ℓ)) :
    (merge l ds).after? = some (.node l (ds.filterMap after?)) := by
  rw [after?, afterAll_eq_filterMap]

/-! ## The number of nodes of a diff -/

mutual

/-- The number of nodes of a diff: its edits and its matched nodes. -/
def nodes : Diff ℓ → Nat
  | edit _ => 1
  | merge _ ds => nodesAll ds + 1

/-- The number of nodes of all diffs of a list. -/
def nodesAll : List (Diff ℓ) → Nat
  | [] => 0
  | d :: ds => nodes d + nodesAll ds

end

@[simp] theorem nodes_edit (e : Edit (Tree ℓ)) : (edit e).nodes = 1 := by rw [nodes]

@[simp] theorem nodes_merge (l : ℓ) (ds : List (Diff ℓ)) :
    (merge l ds).nodes = nodesAll ds + 1 := by rw [nodes]

@[simp] theorem nodesAll_nil : nodesAll ([] : List (Diff ℓ)) = 0 := by rw [nodesAll]

@[simp] theorem nodesAll_cons (d : Diff ℓ) (ds : List (Diff ℓ)) :
    nodesAll (d :: ds) = d.nodes + nodesAll ds := by rw [nodesAll]

@[simp] theorem nodesAll_append (ds es : List (Diff ℓ)) :
    nodesAll (ds ++ es) = nodesAll ds + nodesAll es := by
  induction ds with
  | nil => simp
  | cons d ds ih => rw [List.cons_append, nodesAll_cons, nodesAll_cons, ih, Nat.add_assoc]

mutual

/-- The number of matched nodes of a diff. -/
def matched : Diff ℓ → Nat
  | edit _ => 0
  | merge _ ds => matchedAll ds + 1

/-- The number of matched nodes of all diffs of a list. -/
def matchedAll : List (Diff ℓ) → Nat
  | [] => 0
  | d :: ds => matched d + matchedAll ds

end

@[simp] theorem matched_edit (e : Edit (Tree ℓ)) : (edit e).matched = 0 := by rw [matched]

@[simp] theorem matched_merge (l : ℓ) (ds : List (Diff ℓ)) :
    (merge l ds).matched = matchedAll ds + 1 := by rw [matched]

@[simp] theorem matchedAll_nil : matchedAll ([] : List (Diff ℓ)) = 0 := by rw [matchedAll]

@[simp] theorem matchedAll_cons (d : Diff ℓ) (ds : List (Diff ℓ)) :
    matchedAll (d :: ds) = d.matched + matchedAll ds := by rw [matchedAll]

end Diff

end TreeDiff
