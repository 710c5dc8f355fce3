import TreeDiff.Tree.Basic

/-!
# Counting nodes in any order

The nodes of a tree are counted with a list of pending trees. Which of them is taken next, and where
its children are put, is left open here.

* `Tree.Count`: a count that is under way. `Count.Step` takes one of the pending trees.
* `Count.Step.total_eq`, `Count.Step.nodesAll_lt`: what a step keeps, and what it makes less.
* `Count.Order`: a rule that says which tree is taken next. `Order.count` is the loop that follows
  the rule until nothing is pending.
* `Order.front`, `Order.back`: the pending trees as a stack with its top at the front, as in
  `Tree.size`, and as a stack with its top at the end.
-/

namespace TreeDiff.Tree

variable {ℓ : Type}

theorem nodesAll_perm {ts us : List (Tree ℓ)} (h : ts.Perm us) : nodesAll ts = nodesAll us := by
  induction h with
  | nil => rfl
  | cons t _ ih => rw [nodesAll_cons, nodesAll_cons, ih]
  | swap t u ts => simp only [nodesAll_cons, Nat.add_left_comm]
  | trans _ _ ih₁ ih₂ => exact ih₁.trans ih₂

/-- A count of nodes that is under way. -/
structure Count (ℓ : Type) where
  /-- The number of nodes counted so far. -/
  counted : Nat
  /-- The trees that are still to be looked at. -/
  pending : List (Tree ℓ)

namespace Count

/-- The count of a tree begins with this tree pending. -/
def start (t : Tree ℓ) : Count ℓ := ⟨0, [t]⟩

/-- The nodes counted so far, and those of the pending trees. -/
def total (s : Count ℓ) : Nat := s.counted + nodesAll s.pending

/-- A pending tree leaves with its root counted, and its children are pending instead. The tree may
stand anywhere among the pending ones, and so may its children afterwards. -/
inductive Step : Count ℓ → Count ℓ → Prop
  | take {n : Nat} {l : ℓ} {cs rest ts us : List (Tree ℓ)} :
    ts.Perm (node l cs :: rest) → us.Perm (cs ++ rest) → Step ⟨n, ts⟩ ⟨n + 1, us⟩

namespace Step

variable {s s' : Count ℓ}

/-- The nodes counted and the nodes pending keep their sum. -/
theorem total_eq (h : s.Step s') : s'.total = s.total := by
  obtain ⟨hts, hus⟩ := h
  simp only [total, nodesAll_perm hts, nodesAll_perm hus, nodesAll_append, nodesAll_cons,
    nodes_node]
  omega

theorem counted_eq (h : s.Step s') : s'.counted = s.counted + 1 := by
  cases h
  rfl

/-- The children of the tree that leaves have fewer nodes than the tree. -/
theorem nodesAll_lt (h : s.Step s') : nodesAll s'.pending < nodesAll s.pending := by
  have htotal := h.total_eq
  have hcounted := h.counted_eq
  unfold total at htotal
  omega

end Step

/-! ## Orders -/

/-- A rule that says which pending tree is taken next, and where its children are put. It goes on as
long as a tree is pending. -/
structure Order (ℓ : Type) where
  /-- The count after the next tree, if there is one. -/
  next? : Count ℓ → Option (Count ℓ)
  step_of_eq_some {s s' : Count ℓ} : next? s = some s' → s.Step s'
  pending_of_eq_none {s : Count ℓ} : next? s = none → s.pending = []

namespace Order

/-- The number of nodes that is found in this order. -/
def count (order : Order ℓ) (s : Count ℓ) : Nat :=
  match _ : order.next? s with
  | none => s.counted
  | some s' => order.count s'
termination_by nodesAll s.pending
decreasing_by exact (order.step_of_eq_some ‹_›).nodesAll_lt

end Order

/-- Takes the first tree, and puts its children in its place. -/
def takeFirst? : Count ℓ → Option (Count ℓ)
  | ⟨_, []⟩ => none
  | ⟨n, .node _ cs :: rest⟩ => some ⟨n + 1, cs ++ rest⟩

/-- Takes the last tree, and puts its children in its place. -/
def takeLast? (s : Count ℓ) : Option (Count ℓ) :=
  s.pending.getLast?.map fun t => ⟨s.counted + 1, s.pending.dropLast ++ t.children⟩

theorem step_of_takeFirst? {s s' : Count ℓ} (h : s.takeFirst? = some s') : s.Step s' := by
  obtain ⟨n, _ | ⟨⟨l, cs⟩, rest⟩⟩ := s
  · cases h
  · cases h
    exact .take (.refl _) (.refl _)

theorem step_of_takeLast? {s s' : Count ℓ} (h : s.takeLast? = some s') : s.Step s' := by
  obtain ⟨n, ts⟩ := s
  obtain ⟨⟨l, cs⟩, hlast, rfl⟩ := Option.map_eq_some_iff.1 h
  obtain ⟨rest, rfl⟩ := List.getLast?_eq_some_iff.1 hlast
  rw [List.dropLast_concat]
  exact .take List.perm_append_comm List.perm_append_comm

/-- The pending trees are a stack with its top at the front. -/
def Order.front : Order ℓ where
  next? := takeFirst?
  step_of_eq_some := step_of_takeFirst?
  pending_of_eq_none {s} h := by
    obtain ⟨n, _ | ⟨⟨l, cs⟩, rest⟩⟩ := s
    · rfl
    · cases h

/-- The pending trees are a stack with its top at the end. -/
def Order.back : Order ℓ where
  next? := takeLast?
  step_of_eq_some := step_of_takeLast?
  pending_of_eq_none h := List.getLast?_eq_none_iff.1 (Option.map_eq_none_iff.1 h)

end Count

end TreeDiff.Tree
