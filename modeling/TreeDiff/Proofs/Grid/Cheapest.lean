import TreeDiff.Proofs.Grid.Exact

/-!
# The search finds cheapest scripts

What the search by rows returns for comparisons and prices without effects, as long as no sum of
the recurrence lies above the ceiling.

* `Policy.IsCheapest`: a script whose every rest is cheapest for what is left of the sequences, and
  annotated with its cost.
* `cheapestScript_isCheapest`: the search returns such a script.
* `cheapest_eq_best`: the script is the one of the recurrence, for every call of the search.
* `Policy.Fits.of_cost_le`: prices below a bound keep the sums below the ceiling.
-/

namespace TreeDiff

variable {α β δ : Type}

namespace Policy

variable (P : Policy Id α β δ) {xs : List α} {ys : List β}

/-- Every rest of the script is cheapest for what the edits before it have left of the two
sequences, and is annotated with its cost. -/
structure IsCheapest (xs : List α) (ys : List β) (s : Script δ) : Prop where
  /-- The edits are those of a path. -/
  path : ∃ steps, P.Path xs ys steps ∧ steps.map Step.edit = s.edits
  /-- The annotation of an edit is the least cost of a path from the position before it. -/
  annotation : ∀ steps, P.Path xs ys steps → steps.map Step.edit = s.edits →
    ∀ i d c, s.entries[i]? = some (d, c) →
      IsLeast (P.pathCosts (xs.drop (Step.lost (steps.take i)))
        (ys.drop (Step.gained (steps.take i)))) c
  total : IsLeast (P.pathCosts xs ys) s.total
  total_eq_sum : s.total = (s.edits.map fun d => (P.cost d).run).sum

theorem isCheapest_best (tie : TieBreak) (xs : List α) (ys : List β) :
    P.IsCheapest xs ys (P.best tie xs ys) where
  path := P.exists_path_best tie xs ys
  annotation := by
    intro steps hpath hedits i d c hc
    have hcost : P.pathCost steps = P.optimum xs ys := pathCost_of_edits_best hedits
    have hrest : c = P.pathCost (steps.drop i) := by
      rw [(P.exact_best tie xs ys).eq_sum_of_getElem? hc, pathCost_eq_sum, ← hedits,
        ← List.map_drop]
    rw [hrest, hpath.pathCost_drop hcost]
    exact P.isLeast_optimum _ _
  total := by
    rw [total_best]
    exact P.isLeast_optimum xs ys
  total_eq_sum := (P.exact_best tie xs ys).total_eq_sum

/-! ## Prices below a bound -/

section

variable {P} {k : Nat} (hk : ∀ d, (P.cost d).run ≤ k)
include hk

theorem optimum_le (xs : List α) (ys : List β) :
    P.optimum xs ys ≤ (xs.length + ys.length) * k := by
  induction xs with
  | nil =>
    induction ys with
    | nil => simp [optimum]
    | cons y ys ih =>
      have hle := P.optimum_cons_right_le [] y ys
      have hy := hk (P.insert y)
      simp only [List.length_nil, List.length_cons, Nat.zero_add, Nat.succ_mul] at ih ⊢
      omega
  | cons x xs ih =>
    have hle := P.optimum_cons_left_le x xs ys
    have hx := hk (P.delete x)
    simp only [List.length_cons, Nat.succ_add, Nat.succ_mul] at ih ⊢
    omega

omit hk in
/-- A sum of the recurrence is the cost of an edit and the optimum of a shorter problem. -/
theorem exists_eq_of_mem_sums {xs : List α} {ys : List β} {c : Nat} (hc : c ∈ P.sums xs ys) :
    ∃ d xs' ys', c = (P.cost d).run + P.optimum xs' ys' ∧
      xs'.length + ys'.length < xs.length + ys.length := by
  cases xs with
  | nil =>
    cases ys with
    | nil => cases hc
    | cons y ys => exact ⟨P.insert y, [], ys, List.mem_singleton.1 hc, by simp⟩
  | cons x xs =>
    cases ys with
    | nil => exact ⟨P.delete x, xs, [], List.mem_singleton.1 hc, by simp⟩
    | cons y ys =>
      simp only [sums, List.cons_append, List.nil_append, List.mem_cons, Option.mem_toList,
        Option.map_eq_some_iff] at hc
      rcases hc with rfl | rfl | ⟨d, -, rfl⟩
      · exact ⟨P.delete x, xs, y :: ys, rfl, by simp⟩
      · exact ⟨P.insert y, x :: xs, ys, rfl, by simp⟩
      · exact ⟨d, xs, ys, rfl, by simp only [List.length_cons]; omega⟩

/-- With no price above `k`, the sums of the recurrence stay below `k` for every element. -/
theorem Fits.of_cost_le {xs : List α} {ys : List β}
    (h : (xs.length + ys.length) * k ≤ P.ceiling) : P.Fits xs ys := by
  intro xs' ys' hx hy c hc
  obtain ⟨d, xs'', ys'', rfl, hlt⟩ := exists_eq_of_mem_sums hc
  have hd := hk d
  have hrest := optimum_le hk xs'' ys''
  have hlength : xs''.length + ys''.length + 1 ≤ xs.length + ys.length :=
    hlt.trans_le (Nat.add_le_add hx.length_le hy.length_le)
  have hmul := Nat.mul_le_mul_right k hlength
  rw [Nat.succ_mul] at hmul
  omega

end

/-- Equal elements are copied for nothing, losses and gains cost one. -/
def copying (α : Type) [DecidableEq α] : Policy Id α α (Option α × Option α) where
  delete x := (some x, none)
  insert y := (none, some y)
  compare x y := pure (if x = y then some (some x, some y) else none)
  cost d := pure (if d.1.isSome && d.2.isSome then 0 else 1)

theorem cost_copying_le (α : Type) [DecidableEq α] (d : Option α × Option α) :
    ((copying α).cost d).run ≤ 1 := by
  simp only [copying, Id.run_pure]
  split <;> omega

theorem fits_copying {α : Type} [DecidableEq α] {xs ys : List α}
    (h : xs.length + ys.length ≤ maxCost) : (copying α).Fits xs ys :=
  .of_cost_le (cost_copying_le α) (by rwa [Nat.mul_one])

end Policy

/-! ## The search -/

section

variable {m : Type → Type} [Monad m] [LawfulMonad m] [MonadLiftT (Except Fault) m]
  [LawfulMonadLiftT (Except Fault) m] (P : Policy Id α β δ) {xs : List α} {ys : List β}

/-- **The search returns a script every rest of which is cheapest**, and so a cheapest script for
the whole sequences, with the annotations that belong to it. -/
theorem cheapestScript_isCheapest (h : P.Fits xs ys) (settings : Settings) :
    ∃ s, (cheapestScript P.lift settings xs ys : m (Script δ)) = pure s ∧ P.IsCheapest xs ys s :=
  ⟨_, cheapestScript_lift P h settings, P.isCheapest_best settings.tieBreak xs ys⟩

theorem cheapestScript_isCheapest_copying :
    ∃ s, (cheapestScript (Policy.copying Nat).lift {} [1, 2, 3] [2, 4] : Except Fault _) = pure s ∧
      (Policy.copying Nat).IsCheapest [1, 2, 3] [2, 4] s ∧
      s.edits = [(some 1, none), (some 2, some 2), (some 3, none), (none, some 4)] ∧
      s.cumulative = [3, 2, 2, 1] := by
  have hfits : (Policy.copying Nat).Fits [1, 2, 3] [2, 4] := Policy.fits_copying (by decide)
  obtain ⟨s, hs, hcheapest⟩ := cheapestScript_isCheapest (m := Except Fault) _ hfits {}
  refine ⟨s, hs, hcheapest, ?_⟩
  cases hs
  decide +kernel

/-- **The search by rows returns the script of the recurrence**, with its annotations or without
them, and also when it could be limited in time but is not. -/
theorem cheapest_eq_best (h : P.Fits xs ys) (settings : Settings) (clock : m Instant) :
    (cheapestScript P.lift settings xs ys : m (Script δ)) =
        pure (P.best settings.tieBreak xs ys) ∧
      (cheapestEdits P.lift settings xs ys : m (List δ)) =
        pure (P.best settings.tieBreak xs ys).edits ∧
      cheapestEditsWithin clock P.lift { settings with deadline := none } xs ys =
        pure (P.best settings.tieBreak xs ys).edits :=
  ⟨cheapestScript_lift P h settings, cheapestEdits_lift P h settings,
    cheapestEditsWithin_lift P settings.tieBreak h clock⟩

theorem cheapest_eq_best_copying :
    (cheapestScript (Policy.copying Nat).lift {} [1, 2, 3] [2, 4] : Attempt Instant _) =
        pure ((Policy.copying Nat).best .edits [1, 2, 3] [2, 4]) ∧
      (cheapestEdits (Policy.copying Nat).lift {} [1, 2, 3] [2, 4] : Attempt Instant _) =
        pure ((Policy.copying Nat).best .edits [1, 2, 3] [2, 4]).edits ∧
      cheapestEditsWithin (get : Attempt Instant Instant) (Policy.copying Nat).lift {} [1, 2, 3]
        [2, 4] = pure ((Policy.copying Nat).best .edits [1, 2, 3] [2, 4]).edits ∧
      (Policy.copying Nat).best .edits [1, 2, 3] [2, 4] =
        ⟨[((some 1, none), 3), ((some 2, some 2), 2), ((some 3, none), 2), ((none, some 4), 1)]⟩ := by
  have hfits : (Policy.copying Nat).Fits [1, 2, 3] [2, 4] := Policy.fits_copying (by decide)
  obtain ⟨hscript, hedits, hwithin⟩ := cheapest_eq_best (m := Attempt Instant) _ hfits {} get
  exact ⟨hscript, hedits, hwithin, by decide +kernel⟩

end

end TreeDiff
