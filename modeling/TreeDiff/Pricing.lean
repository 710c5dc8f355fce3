import TreeDiff.Diff.Basic
import TreeDiff.Time

/-!
# Prices of diffs

Ready-made costs for the differ of trees.

* `Pricing`: the parameters of a cost. Insertions and deletions cost so much for every node, or
  for every tree; a matched node has a cost of its own, to which the costs of its children are
  added or not.
* `Pricing.weight`: the cost of a diff. `Pricing.cost` is the same under a ceiling, on a clock: the
  deletion of a tree with certain root labels takes time, and `Pricing.found` is the instant at
  which the cost is known.
-/

namespace TreeDiff

/-- The parameters of a cost of diffs. -/
structure Pricing where
  insert : Nat := 1
  delete : Nat := 1
  /-- A tree counts as one node. -/
  flat : Bool := false
  /-- The cost of a matched node. -/
  merge : Nat := 0
  /-- The costs of matched nodes with single labels, which take the place of the general one. -/
  mergeLabels : List (String × Nat) := []
  /-- The children of a matched node cost nothing. -/
  shallow : Bool := false
  /-- The time it takes to find the cost of the deletion of a tree, by the label of its root. -/
  slowDelete : List (String × Duration) := []

namespace Pricing

/-- The number of nodes that a tree counts for. -/
def extent (p : Pricing) (t : Tree String) : Nat := if p.flat then 1 else t.size

mutual

/-- The cost of a diff. -/
def weight (p : Pricing) : Diff String → Nat
  | .edit (.insert new) => p.insert * p.extent new
  | .edit (.delete old) => p.delete * p.extent old
  | .edit (.replace old new) => p.delete * p.extent old + p.insert * p.extent new
  | .merge l ds =>
    (p.mergeLabels.lookup l).getD p.merge + if p.shallow then 0 else weightAll p ds

/-- The cost of the diffs of a list. -/
def weightAll (p : Pricing) : List (Diff String) → Nat
  | [] => 0
  | d :: ds => weight p d + weightAll p ds

end

/-- The time it takes to find the cost of a diff. -/
def delay (p : Pricing) : Diff String → Option Duration
  | .edit (.delete old) => p.slowDelete.lookup old.label
  | _ => none

/-- The cost of a diff, a fault above the ceiling, found on a clock. -/
def cost (p : Pricing) (d : Diff String) : Attempt Instant Nat := do
  match p.delay d with
  | some t => modify (·.later t)
  | none => pure ()
  withinCeiling maxCost (p.weight d)

/-- The instant at which the cost of a diff is found. -/
def found (p : Pricing) (d : Diff String) (now : Instant) : Instant :=
  (p.delay d).elim now now.later

theorem cost_apply (p : Pricing) (d : Diff String) (now : Instant) :
    p.cost d now = Attempt.ofExcept (withinCeiling maxCost (p.weight d)) (p.found d now) := by
  unfold cost found
  cases p.delay d <;> rfl

theorem cost_eq_ok_iff {p : Pricing} {d : Diff String} {now now' : Instant} {c : Nat} :
    p.cost d now = .ok c now' ↔
      withinCeiling maxCost (p.weight d) = .ok c ∧ p.found d now = now' := by
  rw [cost_apply]
  cases withinCeiling maxCost (p.weight d) with
  | ok c' =>
    constructor
    · rintro ⟨⟩
      exact ⟨rfl, rfl⟩
    · rintro ⟨⟨⟩, rfl⟩
      rfl
  | error e => constructor <;> nofun

/-- The cost of a diff can only be too large. -/
theorem eq_costOverflow_of_cost {p : Pricing} {d : Diff String} {now now' : Instant} {e : Fault}
    (h : p.cost d now = .error e now') : e = .costOverflow := by
  rw [cost_apply] at h
  cases hc : withinCeiling maxCost (p.weight d) with
  | ok c =>
    rw [hc] at h
    cases h
  | error e' =>
    rw [hc] at h
    cases h
    exact (withinCeiling_eq_error_iff.1 hc).2

end Pricing

end TreeDiff
