import Mathlib.Data.List.Chain
import TreeDiff.Join.Rules

/-!
# Compacted lists are settled

A list is settled if no two neighbours in it are to be joined. Compacting looks at each pair of
neighbours once, although a pair changes when the second of the two is merged with the value after
it. For a stable join that cannot make two values join that were to stay two, and a list is settled
once it is compacted.

* `Join.Apart`, `Join.IsStable`: values that stay two, and the laws of a stable join.
* `push`, `pushAll`: the values kept after a value or a list of values has arrived.
* `Join.IsStable.isChain_push`: the kept values stay settled when a value arrives.
* `pushAll_of_isChain`: the values of a settled list are kept as they are.
* `ChainsFit`, `isStable_chainJoin`: the join of chains of words is stable.
* `compact_settles`: compacted lists are settled, and compacting part of a list before the list
  changes nothing.
-/

namespace TreeDiff

variable {α : Type}

namespace Join

/-- The two values stay two, as they are. -/
def Apart (join : Join Id α) (x y : α) : Prop := (join x y).run = .distinct x y

/-- The laws of a stable join. -/
structure IsStable (join : Join Id α) : Prop where
  /-- Values that stay two stay as they are. -/
  eq_of_distinct {x y x' y' : α} : (join x y).run = .distinct x' y' → x' = x ∧ y' = y
  /-- A value that stays apart from the next one also stays apart from what the next one becomes by a
  merge with the one after it. -/
  distinct_of_merged {x y z w x' y' : α} : (join x y).run = .distinct x' y' →
    (join y z).run = .merged w → ∃ x'' w', (join x w).run = .distinct x'' w'

variable {join : Join Id α}

theorem IsStable.apart_of_distinct (h : join.IsStable) {x y x' y' : α}
    (hxy : (join x y).run = .distinct x' y') : join.Apart x y := by
  obtain ⟨rfl, rfl⟩ := h.eq_of_distinct hxy
  exact hxy

theorem IsStable.apart_of_merged (h : join.IsStable) {x y z w : α} (hxy : join.Apart x y)
    (hyz : (join y z).run = .merged w) : join.Apart x w := by
  obtain ⟨x', w', hxw⟩ := h.distinct_of_merged hxy hyz
  exact h.apart_of_distinct hxw

end Join

/-! ## The values kept -/

section

variable {join : Join Id α} {kept : List α} {xs ys : List α}

/-- The values kept after a value has arrived, by a join without effects. -/
def push (join : Join Id α) (kept : List α) (x : α) : List α := (keep join kept x).run

theorem push_cons (join : Join Id α) (last : α) (below : List α) (x : α) :
    push join (last :: below) x = (join last x).run.toList.reverse ++ below := rfl

/-- The values kept after the values of a list have arrived. -/
def pushAll (join : Join Id α) (kept xs : List α) : List α := xs.foldl (push join) kept

theorem run_compact (join : Join Id α) (xs : List α) :
    (compact join xs).run = (pushAll join [] xs).reverse := by
  have hfold : (xs.foldlM (keep join) []).run = pushAll join [] xs := List.idRun_foldlM
  rw [← hfold]
  rfl

/-- Kept values that are settled stay so when a value arrives. The last one is given up, stays in
front of the new one, or is merged with it; in the last case the one below it is apart from the
merged value by the second law. -/
theorem Join.IsStable.isChain_push (h : join.IsStable)
    (hkept : kept.IsChain fun y x => join.Apart x y) (z : α) :
    (push join kept z).IsChain fun y x => join.Apart x y := by
  cases kept with
  | nil => exact .singleton z
  | cons y below =>
    obtain ⟨hy, hbelow⟩ := List.isChain_cons.1 hkept
    rw [push_cons]
    cases hyz : (join y z).run with
    | empty => exact hbelow
    | merged w => exact List.isChain_cons.2 ⟨fun x hx => h.apart_of_merged (hy x hx) hyz, hbelow⟩
    | distinct y' z' =>
      obtain ⟨rfl, rfl⟩ := h.eq_of_distinct hyz
      exact List.isChain_cons_cons.2 ⟨hyz, hkept⟩

theorem Join.IsStable.isChain_pushAll (h : join.IsStable)
    (hkept : kept.IsChain fun y x => join.Apart x y) (xs : List α) :
    (pushAll join kept xs).IsChain fun y x => join.Apart x y := by
  induction xs generalizing kept with
  | nil => exact hkept
  | cons x xs ih => exact ih (h.isChain_push hkept x)

/-- The values of a settled list are kept as they are. -/
theorem pushAll_of_isChain (h : (kept.reverse ++ xs).IsChain join.Apart) :
    pushAll join kept xs = xs.reverse ++ kept := by
  induction xs generalizing kept with
  | nil => rfl
  | cons x xs ih =>
    have hpush : push join kept x = x :: kept := by
      cases kept with
      | nil => rfl
      | cons last below =>
        have hlast : join.Apart last x := by
          rw [List.reverse_cons, List.append_assoc] at h
          exact (List.isChain_append_cons_cons.1 h).2.1
        rw [push_cons, hlast]
        rfl
    have hnext : ((x :: kept).reverse ++ xs).IsChain join.Apart := by
      rwa [List.reverse_cons, List.append_assoc]
    rw [pushAll, List.foldl_cons, hpush, ← pushAll, ih hnext, List.reverse_cons, List.append_assoc]
    rfl

/-- The compacted list is settled. -/
theorem Join.IsStable.isChain_compact (h : join.IsStable) (xs : List α) :
    (compact join xs).run.IsChain join.Apart := by
  rw [run_compact, List.isChain_reverse]
  exact h.isChain_pushAll .nil xs

/-- A list can be compacted in two goes. -/
theorem Join.IsStable.compact_append (h : join.IsStable) (xs ys : List α) :
    (compact join ((compact join xs).run ++ ys)).run = (compact join (xs ++ ys)).run := by
  have hsettled : pushAll join [] (compact join xs).run = pushAll join [] xs := by
    rw [pushAll_of_isChain (h.isChain_compact xs), List.append_nil, run_compact,
      List.reverse_reverse]
  have happend : ∀ as : List α, pushAll join [] (as ++ ys) = pushAll join (pushAll join [] as) ys :=
    fun as => List.foldl_append
  rw [run_compact, run_compact join (xs ++ ys), happend, happend, hsettled]

end

/-! ## Chains of words -/

/-- The second chain goes on where the first one ends. -/
def ChainsFit (c d : List String) : Prop := ∃ x ∈ c.getLast?, ∃ y ∈ d.head?, fits x y = true

/-- Chains that fit become one, and all others stay two. -/
theorem cases_chainJoin (c d : List String) :
    (ChainsFit c d ∧ (chainJoin c d).run = .merged (c ++ d)) ∨
      (¬ChainsFit c d ∧ (chainJoin c d).run = .distinct c d) := by
  unfold chainJoin ChainsFit
  cases c.getLast? with
  | none => simp
  | some x =>
    cases d.head? with
    | none => simp
    | some y => cases h : fits x y <;> simp [h]

theorem not_chainsFit_of_apart {c d : List String} (h : chainJoin.Apart c d) : ¬ChainsFit c d := by
  obtain ⟨-, hmerged⟩ | ⟨hfit, -⟩ := cases_chainJoin c d
  · cases hmerged.symm.trans h
  · exact hfit

/-- A chain in front fits no worse and no better when more words are added to the chain after it. -/
theorem chainsFit_append_iff {c d e : List String} (hd : d ≠ []) :
    ChainsFit c (d ++ e) ↔ ChainsFit c d := by
  rw [ChainsFit, ChainsFit, List.head?_append_of_ne_nil d hd]

/-- The join of chains is stable: a merge keeps the first word of the chain in front. -/
theorem isStable_chainJoin : chainJoin.IsStable where
  eq_of_distinct {c d c' d'} h := by
    obtain ⟨-, hmerged⟩ | ⟨-, hdistinct⟩ := cases_chainJoin c d
    · cases hmerged.symm.trans h
    · cases hdistinct.symm.trans h
      exact ⟨rfl, rfl⟩
  distinct_of_merged {c d e w c' d'} hcd hde := by
    obtain ⟨-, hmerged⟩ | ⟨hfit, -⟩ := cases_chainJoin c d
    · cases hmerged.symm.trans hcd
    obtain ⟨⟨x, hx, -⟩, hmerged⟩ | ⟨-, hdistinct⟩ := cases_chainJoin d e
    · cases hmerged.symm.trans hde
      have hd : d ≠ [] := by
        rintro rfl
        cases hx
      obtain ⟨hfit', -⟩ | ⟨-, hapart⟩ := cases_chainJoin c (d ++ e)
      · exact absurd ((chainsFit_append_iff hd).1 hfit') hfit
      · exact ⟨c, d ++ e, hapart⟩
    · cases hdistinct.symm.trans hde

/-- **Compacted lists are settled.** With a stable join, all neighbours in a compacted list stay two,
compacting it again changes nothing, and neither does compacting the first part of a list before the
list. The join of chains is stable, so no chain in a compacted list of chains goes on where the one
before it ends. -/
theorem compact_settles :
    (∀ {α : Type} {join : Join Id α}, join.IsStable → ∀ xs ys : List α,
      (compact join xs).run.IsChain join.Apart ∧
      (compact join (compact join xs).run).run = (compact join xs).run ∧
      (compact join ((compact join xs).run ++ ys)).run = (compact join (xs ++ ys)).run) ∧
    chainJoin.IsStable ∧
    ∀ cs : List (List String), (compact chainJoin cs).run.IsChain fun c d => ¬ChainsFit c d := by
  refine ⟨fun {α join} h xs ys => ⟨h.isChain_compact xs, ?_, h.compact_append xs ys⟩,
    isStable_chainJoin, fun cs => ?_⟩
  · simpa using h.compact_append xs []
  · exact (isStable_chainJoin.isChain_compact cs).imp fun _ _ => not_chainsFit_of_apart

/-- Two chains that fit and one that does not, and one that fits after them. -/
theorem compact_settles_chainJoin :
    chainJoin.IsStable ∧
    (compact chainJoin [["ab"], ["bc"], ["x"]]).run.IsChain chainJoin.Apart ∧
    (compact chainJoin (compact chainJoin [["ab"], ["bc"], ["x"]]).run).run =
      (compact chainJoin [["ab"], ["bc"], ["x"]]).run ∧
    (compact chainJoin ((compact chainJoin [["ab"], ["bc"], ["x"]]).run ++ [["xy"]])).run =
      (compact chainJoin ([["ab"], ["bc"], ["x"]] ++ [["xy"]])).run ∧
    (compact chainJoin [["ab"], ["bc"], ["x"]]).run = [["ab", "bc"], ["x"]] ∧
    (compact chainJoin [["ab"], ["bc"], ["x"], ["xy"]]).run = [["ab", "bc"], ["x", "xy"]] := by
  obtain ⟨hchain, hagain, happend⟩ := compact_settles.1 isStable_chainJoin
    [["ab"], ["bc"], ["x"]] [["xy"]]
  refine ⟨isStable_chainJoin, hchain, hagain, happend, ?_, ?_⟩
  · decide +kernel
  · decide +kernel

-- Without the second law neighbours can be left that are to be joined: these two cancel out.
example : (compact balanceJoin [2, -1, -1]).run = [2, -2] := rfl

end TreeDiff
