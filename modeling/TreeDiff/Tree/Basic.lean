/-!
# Labelled ordered trees

A tree is a node with a label and an ordered list of children; a leaf is a node without children.

* `Tree.induct`: the induction principle with one hypothesis for every child.
* `Tree.nodes`: the number of nodes, by recursion on the tree.
* `Tree.size`: the same number, counted with a list of the trees that are still to be looked at,
  so that the depth of the tree costs nothing. `Tree.size_eq_nodes` says that the two agree, and
  `Tree.countPending_eq` that the count so far and the nodes still pending have a constant sum.
-/

namespace TreeDiff

/-- A node with a label and an ordered list of children. -/
inductive Tree (ℓ : Type) where
  | node (label : ℓ) (children : List (Tree ℓ))

namespace Tree

variable {ℓ : Type}

/-- A node without children. -/
def leaf (l : ℓ) : Tree ℓ := .node l []

def label : Tree ℓ → ℓ
  | .node l _ => l

def children : Tree ℓ → List (Tree ℓ)
  | .node _ cs => cs

def isLeaf (t : Tree ℓ) : Bool := t.children.isEmpty

@[simp] theorem label_node (l : ℓ) (cs : List (Tree ℓ)) : (node l cs).label = l := rfl

@[simp] theorem children_node (l : ℓ) (cs : List (Tree ℓ)) : (node l cs).children = cs := rfl

theorem node_label_children (t : Tree ℓ) : node t.label t.children = t := by
  cases t
  rfl

/-- Induction on trees: what passes from all children of a node to the node holds everywhere. -/
@[elab_as_elim]
theorem induct {motive : Tree ℓ → Prop}
    (step : ∀ l cs, (∀ c ∈ cs, motive c) → motive (node l cs)) : ∀ t, motive t
  | node l cs => step l cs fun c hc =>
    have : sizeOf c < sizeOf cs := List.sizeOf_lt_of_mem hc
    induct step c
termination_by t => sizeOf t
decreasing_by simp only [node.sizeOf_spec]; omega

/-! ## Equality -/

section

variable [DecidableEq ℓ]

mutual

/-- Decides whether two trees are equal. -/
def decEq : (t u : Tree ℓ) → Decidable (t = u)
  | .node l cs, .node k ds =>
    if hl : l = k then
      match decEqAll cs ds with
      | .isTrue h => .isTrue (by rw [hl, h])
      | .isFalse h => .isFalse fun e => h (node.inj e).2
    else .isFalse fun e => hl (node.inj e).1

/-- Decides whether two lists of trees are equal. -/
def decEqAll : (ts us : List (Tree ℓ)) → Decidable (ts = us)
  | [], [] => .isTrue rfl
  | [], _ :: _ => .isFalse nofun
  | _ :: _, [] => .isFalse nofun
  | t :: ts, u :: us =>
    match decEq t u, decEqAll ts us with
    | .isTrue h, .isTrue hs => .isTrue (by rw [h, hs])
    | .isFalse h, _ => .isFalse fun e => h (List.cons.inj e).1
    | _, .isFalse hs => .isFalse fun e => hs (List.cons.inj e).2

end

instance : DecidableEq (Tree ℓ) := decEq

end

/-! ## The number of nodes -/

mutual

/-- The number of nodes, the root included. -/
def nodes : Tree ℓ → Nat
  | .node _ cs => nodesAll cs + 1

/-- The number of nodes of all trees of a list. -/
def nodesAll : List (Tree ℓ) → Nat
  | [] => 0
  | t :: ts => t.nodes + nodesAll ts

end

@[simp] theorem nodes_node (l : ℓ) (cs : List (Tree ℓ)) : (node l cs).nodes = nodesAll cs + 1 := by
  rw [nodes]

@[simp] theorem nodesAll_nil : nodesAll ([] : List (Tree ℓ)) = 0 := by rw [nodesAll]

@[simp] theorem nodesAll_cons (t : Tree ℓ) (ts : List (Tree ℓ)) :
    nodesAll (t :: ts) = t.nodes + nodesAll ts := by rw [nodesAll]

@[simp] theorem nodesAll_append (ts us : List (Tree ℓ)) :
    nodesAll (ts ++ us) = nodesAll ts + nodesAll us := by
  induction ts with
  | nil => simp
  | cons t ts ih => rw [List.cons_append, nodesAll_cons, nodesAll_cons, ih, Nat.add_assoc]

theorem nodesAll_le_of_suffix {ts us : List (Tree ℓ)} (h : us <:+ ts) :
    nodesAll us ≤ nodesAll ts := by
  obtain ⟨vs, rfl⟩ := h
  rw [nodesAll_append]
  exact Nat.le_add_left _ _

theorem nodes_pos (t : Tree ℓ) : 0 < t.nodes := by
  cases t
  simp

/-- Counts the nodes of the trees in `pending`, on top of the nodes counted so far. A tree leaves
the list with its root counted and is replaced by its children. -/
def countPending (counted : Nat) : (pending : List (Tree ℓ)) → Nat
  | [] => counted
  | .node _ cs :: rest => countPending (counted + 1) (cs ++ rest)
termination_by pending => nodesAll pending
decreasing_by simp only [nodesAll_append, nodesAll_cons, nodes_node]; omega

/-- The number of nodes, the root included, counted without recursion on the depth. -/
def size (t : Tree ℓ) : Nat := countPending 0 [t]

/-- The nodes counted and the nodes that are still pending add up to the final count. -/
theorem countPending_eq (counted : Nat) (pending : List (Tree ℓ)) :
    countPending counted pending = counted + nodesAll pending := by
  induction counted, pending using countPending.induct with
  | case1 counted => simp [countPending]
  | case2 counted l cs rest ih =>
    rw [countPending, ih]
    simp only [nodesAll_append, nodesAll_cons, nodes_node]
    omega

theorem size_eq_nodes (t : Tree ℓ) : t.size = t.nodes := by
  simp [size, countPending_eq]

theorem size_eq_nodesAll_children (t : Tree ℓ) : t.size = nodesAll t.children + 1 := by
  rw [size_eq_nodes, ← nodes_node t.label, node_label_children]

/-- No tree of a list has more nodes than the list. -/
theorem size_le_nodesAll {t : Tree ℓ} {ts : List (Tree ℓ)} (h : t ∈ ts) :
    t.size ≤ nodesAll ts := by
  obtain ⟨us, vs, rfl⟩ := List.append_of_mem h
  rw [size_eq_nodes, nodesAll_append, nodesAll_cons]
  omega

theorem size_pos (t : Tree ℓ) : 0 < t.size := by
  rw [size_eq_nodes]
  exact t.nodes_pos

end Tree

end TreeDiff
