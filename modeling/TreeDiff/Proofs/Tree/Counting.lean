import Mathlib.Logic.Relation
import TreeDiff.Proofs.Diff.Costs
import TreeDiff.Tree.Counting

/-!
# Every order of counting finds all nodes

A run of a count goes on as long as a tree is pending, and it comes to an end, since each step leaves
fewer nodes pending. What it has found by then is the sum that no step changes.

* `Count.wellFounded_step`, `Count.exists_step_iff`: where runs end.
* `Count.total_of_steps`, `Count.counted_of_steps`: what runs keep, and what they find.
* `Order.steps_count`: the loop of an order is a run. `Order.count_front`: one of the loops is that
  of `Tree.size`.
* `Tree.size_in_any_order`: all of this, and the number that `Tree.size` finds.
-/

namespace TreeDiff.Tree

open Relation

variable {ℓ : Type}

namespace Count

variable {s s' : Count ℓ}

/-! ## Runs -/

theorem wellFounded_step : WellFounded fun s' s : Count ℓ => s.Step s' :=
  Subrelation.wf (fun h => h.nodesAll_lt) (measure fun s : Count ℓ => nodesAll s.pending).wf

theorem exists_step_iff : (∃ s', s.Step s') ↔ s.pending ≠ [] := by
  constructor
  · rintro ⟨_, hts, -⟩ rfl
    exact List.cons_ne_nil _ _ hts.nil_eq.symm
  · intro hne
    obtain ⟨n, _ | ⟨⟨l, cs⟩, rest⟩⟩ := s
    · exact absurd rfl hne
    · exact ⟨_, .take (.refl _) (.refl _)⟩

theorem total_of_steps (h : ReflTransGen Step s s') : s'.total = s.total := by
  induction h with
  | refl => rfl
  | tail _ hstep ih => rw [hstep.total_eq, ih]

/-- A run that leaves nothing pending has counted all nodes. -/
theorem counted_of_steps (h : ReflTransGen Step s s') (hdone : s'.pending = []) :
    s'.counted = s.total := by
  have htotal := total_of_steps h
  rwa [total, hdone, nodesAll_nil, Nat.add_zero] at htotal

/-! ## Loops -/

namespace Order

/-- The loop of an order is a run that leaves nothing pending. -/
theorem steps_count (order : Order ℓ) (s : Count ℓ) :
    ReflTransGen Step s ⟨order.count s, []⟩ := by
  fun_induction order.count s with
  | case1 s hnext =>
    have hdone : s.pending = [] := order.pending_of_eq_none hnext
    rw [← hdone]
  | case2 s s' hnext ih => exact .head (order.step_of_eq_some hnext) ih

theorem count_eq_total (order : Order ℓ) (s : Count ℓ) : order.count s = s.total :=
  counted_of_steps (order.steps_count s) rfl

theorem count_front (n : Nat) (ts : List (Tree ℓ)) : front.count ⟨n, ts⟩ = countPending n ts := by
  induction n, ts using countPending.induct with
  | case1 n =>
    rw [count, countPending]
    rfl
  | case2 n l cs rest ih =>
    -- both loops take the first tree, and go on from the same pending trees
    rw [countPending, ← ih, count]
    rfl

end Order

end Count

theorem size_eq_sum_children (t : Tree ℓ) : t.size = 1 + (t.children.map size).sum := by
  rw [size_eq_nodesAll_children, Diff.nodesAll_eq_sum_size, Nat.add_comm]

/-- **In any order, the nodes of a tree are counted.** Whichever of the pending trees a step takes,
and whatever else is pending, the nodes counted and the nodes pending keep their sum, and fewer
nodes are pending afterwards. There is a step as long as a tree is pending, and no run of steps goes
on for ever. A run that leaves nothing pending has found the nodes counted at its beginning and
those of the trees that were pending then, and so has the loop of each order. The loop of
`Tree.size`, and the one whose stack grows at its end, find `1` and the sizes of the children. -/
theorem size_in_any_order :
    (∀ s s' : Count ℓ, s.Step s' →
      s'.total = s.total ∧ nodesAll s'.pending < nodesAll s.pending) ∧
    (∀ s : Count ℓ, (∃ s', s.Step s') ↔ s.pending ≠ []) ∧
    (WellFounded fun s' s : Count ℓ => s.Step s') ∧
    (∀ s s' : Count ℓ, ReflTransGen Count.Step s s' → s'.pending = [] → s'.counted = s.total) ∧
    (∀ (order : Count.Order ℓ) (s : Count ℓ),
      ReflTransGen Count.Step s ⟨order.count s, []⟩ ∧ order.count s = s.total) ∧
    (∀ (n : Nat) (ts : List (Tree ℓ)), Count.Order.front.count ⟨n, ts⟩ = countPending n ts) ∧
    ∀ t : Tree ℓ, Count.Order.front.count (.start t) = t.size ∧
      Count.Order.back.count (.start t) = t.size ∧ t.size = 1 + (t.children.map size).sum := by
  refine ⟨fun s s' h => ⟨h.total_eq, h.nodesAll_lt⟩, fun s => Count.exists_step_iff,
    Count.wellFounded_step, fun s s' => Count.counted_of_steps,
    fun order s => ⟨order.steps_count s, order.count_eq_total s⟩, Count.Order.count_front,
    fun t => ?_⟩
  have hfront : Count.Order.front.count (.start t) = t.size := Count.Order.count_front 0 [t]
  refine ⟨hfront, ?_, t.size_eq_sum_children⟩
  rw [Count.Order.count_eq_total, ← Count.Order.count_eq_total .front, hfront]

/-- A tree is taken from between two others, and its children are put apart from each other. -/
theorem size_in_any_order_apart :
    Count.Step ⟨1, [leaf "f", node "args" [leaf "x", leaf "y"], leaf "g"]⟩
        ⟨2, [leaf "x", leaf "f", leaf "g", leaf "y"]⟩ ∧
      nodesAll [leaf "x", leaf "f", leaf "g", leaf "y"] <
        nodesAll [leaf "f", node "args" [leaf "x", leaf "y"], leaf "g"] ∧
      ReflTransGen Count.Step ⟨1, [leaf "f", node "args" [leaf "x", leaf "y"], leaf "g"]⟩ ⟨6, []⟩ ∧
      6 = (⟨1, [leaf "f", node "args" [leaf "x", leaf "y"], leaf "g"]⟩ : Count String).total := by
  obtain ⟨hkeep, -, -, hfind, -⟩ := size_in_any_order (ℓ := String)
  have hleaf : ∀ n l ts, Count.Step ⟨n, leaf l :: ts⟩ (⟨n + 1, ts⟩ : Count String) :=
    fun _ _ _ => .take (.refl _) (.refl _)
  have hstep : Count.Step ⟨1, [leaf "f", node "args" [leaf "x", leaf "y"], leaf "g"]⟩
      ⟨2, [leaf "x", leaf "f", leaf "g", leaf "y"]⟩ :=
    .take (.swap _ _ _) (.cons _ (List.perm_append_comm : ([_, _] ++ [_]).Perm _))
  have hrun : ReflTransGen Count.Step
      ⟨1, [leaf "f", node "args" [leaf "x", leaf "y"], leaf "g"]⟩ ⟨6, []⟩ :=
    .head hstep (.head (hleaf ..) (.head (hleaf ..) (.head (hleaf ..) (.single (hleaf ..)))))
  exact ⟨hstep, (hkeep _ _ hstep).2, hrun, hfind _ _ hrun rfl⟩

end TreeDiff.Tree
