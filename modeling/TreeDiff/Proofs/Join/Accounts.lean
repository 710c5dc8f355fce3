import Mathlib.Data.List.Basic
import Mathlib.Data.List.Induction
import TreeDiff.Join.Rules

/-!
# Every value is offered once

When a list is compacted, each value that arrives is joined with the last value kept before it, once,
and with no other value; only a value that arrives when nothing is kept is joined with none. So the
length of the compacted list can be read off the outcomes of the joins. Nothing is asked of the join:
it may have a state, and it may change the two values that it leaves apart.

* `Joining`, `Join.recorded`: what a join has been asked and has answered, and the join that writes
  it to a log.
* `Join.keptAfter`: the values kept when some of the values have arrived.
* `Join.Accounts`: what a log says of the list that has been compacted.
* `Join.run_keep_recorded`, `Join.length_keep`, `Join.Accounts.concat`: one value more.
* `Join.run_foldlM_recorded`, `compact_accounts`: the whole list.
-/

namespace TreeDiff

variable {σ α : Type}

/-- Two values that have been joined, and what has become of them. -/
structure Joining (α : Type) where
  first : α
  second : α
  outcome : Joined α

namespace Join

/-- The join that writes its questions and answers to a log. -/
def recorded {m : Type → Type} [Monad m] (join : Join m α) :
    Join (StateT (Array (Joining α)) m) α := fun x y => do
  let outcome ← join x y
  modify (·.push ⟨x, y, outcome⟩)
  return outcome

variable (join : Join (StateM σ) α) (s : σ)

/-- The values kept when the first `n` values of a list have arrived. -/
def keptAfter (xs : List α) (n : Nat) : List α := ((compact join (xs.take n)).run s).run.1

/-- What a log says of a list that is compacted from the state `s` on. -/
structure Accounts (xs : List α) (log : List (Joining α)) : Prop where
  /-- Each value is joined with the last value kept before it, if there is one. -/
  pairs : log.map (fun j => (j.first, j.second)) = xs.zipIdx.filterMap fun p =>
    (join.keptAfter s xs p.2).getLast?.map fun last => (last, p.1)
  /-- All values are offered, in order, but those that arrive when nothing is kept. -/
  offered : log.map Joining.second =
    (xs.zipIdx.filter fun p => join.keptAfter s xs p.2 ≠ []).map Prod.fst
  /-- One value is lost by a merge, and two if they cancel out. -/
  length : ((compact join xs).run s).run.1.length + log.countP (·.outcome.isMerged) +
    2 * log.countP (·.outcome.isEmpty) = xs.length

/-! ## One value more -/

/-- The stack of kept values, and the state, when the values of a list have arrived. -/
def stackAfter (xs : List α) : List α × σ := ((xs.foldlM (keep join) []).run s).run

theorem run_compact_eq (xs : List α) :
    ((compact join xs).run s).run =
      ((join.stackAfter s xs).1.reverse, (join.stackAfter s xs).2) := rfl

theorem stackAfter_concat (xs : List α) (x : α) :
    join.stackAfter s (xs ++ [x]) =
      ((keep join (join.stackAfter s xs).1 x).run (join.stackAfter s xs).2).run := by
  simp [stackAfter]

/-- Values that arrive later do not change what has been kept. -/
theorem keptAfter_append (xs ys : List α) {n : Nat} (h : n ≤ xs.length) :
    join.keptAfter s (xs ++ ys) n = join.keptAfter s xs n := by
  rw [keptAfter, keptAfter, List.take_append_of_le_length h]

theorem keptAfter_length_append (xs ys : List α) :
    join.keptAfter s (xs ++ ys) xs.length = (join.stackAfter s xs).1.reverse := by
  rw [keptAfter, List.take_left, run_compact_eq]

/-- What the arrival of a value adds to the log. -/
def entries (stack : List α) (x : α) (s : σ) : List (Joining α) :=
  stack.head?.toList.map fun last => ⟨last, x, ((join last x).run s).run.1⟩

/-- A value is kept as without a log. -/
theorem run_keep_recorded (stack : List α) (x : α) (log : Array (Joining α)) (s : σ) :
    (((keep join.recorded stack x).run log).run s).run =
      ((((keep join stack x).run s).run.1, log ++ join.entries stack x s),
        ((keep join stack x).run s).run.2) := by
  cases stack with
  | nil => rfl
  | cons last below => rfl

/-- Of two values as many are left as their outcome does not account for. -/
theorem length_outcome (j : Joined α) :
    j.toList.length + (if j.isMerged then 1 else 0) + 2 * (if j.isEmpty then 1 else 0) = 2 := by
  cases j <;> rfl

theorem length_keep (stack : List α) (x : α) (s : σ) :
    ((keep join stack x).run s).run.1.length +
        (join.entries stack x s).countP (·.outcome.isMerged) +
        2 * (join.entries stack x s).countP (·.outcome.isEmpty) = stack.length + 1 := by
  cases stack with
  | nil => rfl
  | cons last below =>
    have houtcome := length_outcome ((join last x).run s).run.1
    simp [entries, keep, List.countP_singleton] at houtcome ⊢
    omega

variable {join s}

/-- The value that arrives next is joined with the last value kept so far, if there is one. -/
theorem Accounts.concat {xs : List α} {log : List (Joining α)} (h : join.Accounts s xs log)
    (x : α) :
    join.Accounts s (xs ++ [x])
      (log ++ join.entries (join.stackAfter s xs).1 x (join.stackAfter s xs).2) := by
  have hbefore : ∀ p ∈ xs.zipIdx,
      join.keptAfter s (xs ++ [x]) p.2 = join.keptAfter s xs p.2 := by
    intro p hp
    have hlt := List.snd_lt_of_mem_zipIdx hp
    exact join.keptAfter_append s xs [x] (by omega)
  have hnow := join.keptAfter_length_append s xs [x]
  constructor
  · rw [List.map_append, h.pairs, List.zipIdx_append, List.filterMap_append]
    congr 1
    · apply List.filterMap_congr
      intro p hp
      rw [hbefore p hp]
    · cases hstack : (join.stackAfter s xs).1 <;> simp [hnow, entries, hstack]
  · rw [List.map_append, h.offered, List.zipIdx_append, List.filter_append, List.map_append]
    congr 1
    · congr 1
      apply List.filter_congr
      intro p hp
      rw [hbefore p hp]
    · cases hstack : (join.stackAfter s xs).1 <;> simp [hnow, entries, hstack]
  · have hkeep := join.length_keep (join.stackAfter s xs).1 x (join.stackAfter s xs).2
    have hlength := h.length
    rw [run_compact_eq, List.length_reverse] at hlength ⊢
    rw [stackAfter_concat, List.countP_append, List.countP_append, List.length_append,
      List.length_singleton]
    omega

/-! ## The whole list -/

/-- The values of a list are kept as without a log, and the log accounts for them. -/
theorem run_foldlM_recorded (join : Join (StateM σ) α) (s : σ) (xs : List α) :
    ∃ log, (((xs.foldlM (keep join.recorded) []).run #[]).run s).run =
        (((join.stackAfter s xs).1, List.toArray log), (join.stackAfter s xs).2) ∧
      join.Accounts s xs log := by
  induction xs using List.reverseRecOn with
  | nil => exact ⟨[], rfl, rfl, rfl, rfl⟩
  | append_singleton xs x ih =>
    obtain ⟨log, hrun, haccounts⟩ := ih
    refine ⟨_, ?_, haccounts.concat x⟩
    have hnext := join.run_keep_recorded (join.stackAfter s xs).1 x log.toArray
      (join.stackAfter s xs).2
    rw [List.foldlM_append, StateT.run_bind, StateT.run_bind, Id.run_bind, hrun, stackAfter_concat]
    simpa using hnext

end Join

/-- **Every value is offered once.** For any join and any list: compacting the list with a log is
compacting it, the log holds one entry for each value that arrives when something is kept, in order
and with the last kept value in front, and the values that are lost are those that the entries
account for. -/
theorem compact_accounts (join : Join (StateM σ) α) (s : σ) (xs : List α) :
    ∃ log, (((compact join.recorded xs).run #[]).run s).run =
        ((((compact join xs).run s).run.1, List.toArray log), ((compact join xs).run s).run.2) ∧
      join.Accounts s xs log := by
  obtain ⟨log, hrun, haccounts⟩ := join.run_foldlM_recorded s xs
  refine ⟨log, ?_, haccounts⟩
  rw [Join.run_compact_eq, compact, StateT.run_bind, StateT.run_bind, Id.run_bind, hrun]
  rfl

-- The first two become 3, which the third cancels; the fourth arrives when nothing is kept.
example : ((compact balanceJoin.recorded [1, 2, -3, 4, -1]).run #[]).run.1 = [4, -1] ∧
    (((compact balanceJoin.recorded [1, 2, -3, 4, -1]).run #[]).run.2.toList.map fun j =>
      (j.first, j.second)) = [(1, 2), (3, -3), (4, -1)] := by decide

end TreeDiff
