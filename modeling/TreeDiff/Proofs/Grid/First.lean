import TreeDiff.Proofs.Grid.Cheapest
import TreeDiff.Proofs.Grid.Moves

/-!
# The first of the cheapest paths

Ties are broken at every position by itself, from the end of the two sequences. Read from the front,
the path that comes out is the first of all cheapest paths, where paths are ordered as words of
their moves and moves as the tie break prefers them.

* `Policy.exists_candidate_eq_best`: the script of the recurrence is a cheapest candidate of its
  position, and no cheapest candidate comes before it.
* `Policy.IsFirst`: a path before all others of its cost.
* `Policy.Path.eq_or_lex_best`: no cheapest path comes before the path of the recurrence, by
  induction on the path it is compared with.
* `cheapest_isFirst`: the search.
-/

namespace TreeDiff

variable {α β δ : Type}

/-! ## The recurrence, with its moves -/

namespace Policy

variable (P : Policy Id α β δ) (tie : TieBreak)

theorem run_compare_stepping (x : α) (y : β) :
    (P.stepping.compare x y).run = (P.compare x y).run.map fun d => ⟨.both, d⟩ := rfl

/-- The script that begins at a position with a move and goes on with the script of the recurrence,
if the move can be made. -/
def candidate : List α → List β → Move → Option (Script (Step δ))
  | x :: xs, ys, .delete =>
    some (P.stepping.extend ⟨.delete, P.delete x⟩ (P.stepping.best tie xs ys))
  | xs, y :: ys, .insert =>
    some (P.stepping.extend ⟨.insert, P.insert y⟩ (P.stepping.best tie xs ys))
  | x :: xs, y :: ys, .both =>
    (P.compare x y).run.map fun d => P.stepping.extend ⟨.both, d⟩ (P.stepping.best tie xs ys)
  | _, _, _ => none

/-- The script of the recurrence is a cheapest candidate, and its move comes before the moves of all
other cheapest candidates. -/
theorem exists_candidate_eq_best {xs : List α} {ys : List β} (h : xs ≠ [] ∨ ys ≠ []) :
    ∃ move, P.candidate tie xs ys move = some (P.stepping.best tie xs ys) ∧
      ∀ move' s, P.candidate tie xs ys move' = some s →
        s.total ≤ (P.stepping.best tie xs ys).total → move' = move ∨ tie.Precedes move move' := by
  cases xs with
  | nil =>
    cases ys with
    | nil => simp at h
    | cons y ys =>
      rw [best]
      refine ⟨.insert, rfl, fun move' s hs _ => ?_⟩
      cases move' with
      | insert => exact .inl rfl
      | delete => cases hs
      | both => cases hs
  | cons x xs =>
    cases ys with
    | nil =>
      rw [best]
      refine ⟨.delete, rfl, fun move' s hs _ => ?_⟩
      cases move' with
      | delete => exact .inl rfl
      | insert => cases hs
      | both => cases hs
    | cons y ys =>
      have hcandidate : P.candidate tie (x :: xs) (y :: ys) = TieBreak.candidate
          (P.stepping.extend ⟨.delete, P.delete x⟩ (P.stepping.best tie xs (y :: ys)))
          (P.stepping.extend ⟨.insert, P.insert y⟩ (P.stepping.best tie (x :: xs) ys))
          ((P.stepping.compare x y).run.map fun d =>
            P.stepping.extend d (P.stepping.best tie xs ys)) := by
        funext move
        cases move with
        | delete => rfl
        | insert => rfl
        | both => simp [candidate, TieBreak.candidate, run_compare_stepping, Function.comp_def]
      rw [hcandidate, best_cons_cons]
      exact tie.exists_candidate_eq_pick _ _ _

/-- A candidate begins with its move. -/
theorem exists_edits_of_candidate {xs : List α} {ys : List β} {move : Move} {s : Script (Step δ)}
    (h : P.candidate tie xs ys move = some s) : ∃ d steps, s.edits = ⟨move, d⟩ :: steps := by
  unfold candidate at h
  split at h
  · cases h
    exact ⟨_, _, rfl⟩
  · cases h
    exact ⟨_, _, rfl⟩
  · obtain ⟨d, -, rfl⟩ := Option.map_eq_some_iff.1 h
    exact ⟨_, _, rfl⟩
  · cases h

/-- Moves are free of charge. -/
theorem optimum_stepping (xs : List α) (ys : List β) :
    P.stepping.optimum xs ys = P.optimum xs ys := by
  induction xs, ys using optimum.induct P with
  | case1 => rw [optimum, optimum]
  | case2 x xs ih => rw [optimum, optimum, ih]; rfl
  | case3 y ys ih => rw [optimum, optimum, ih]; rfl
  | case4 x xs y ys hnone ih₁ ih₂ =>
    rw [optimum, optimum, run_compare_stepping, hnone, ih₁, ih₂]
    rfl
  | case5 x xs y ys d hsome ih₁ ih₂ ih₃ =>
    rw [optimum, optimum, run_compare_stepping, hsome, ih₁, ih₂, ih₃]
    rfl

variable {P} in
/-- The first step of a path is the move of a candidate, and the other steps are a path from the
position where the candidate goes on. -/
theorem Path.exists_candidate {xs : List α} {ys : List β} {step : Step δ} {steps : List (Step δ)}
    (h : P.Path xs ys (step :: steps)) :
    ∃ xs' ys', P.Path xs' ys' steps ∧
      P.candidate tie xs ys step.move =
        some (P.stepping.extend step (P.stepping.best tie xs' ys')) ∧
      P.optimum xs ys ≤ (P.cost step.edit).run + P.optimum xs' ys' := by
  cases h with
  | delete x h => exact ⟨_, _, h, rfl, P.optimum_cons_left_le _ _ _⟩
  | insert y h =>
    refine ⟨_, _, h, ?_, P.optimum_cons_right_le _ _ _⟩
    cases xs <;> rfl
  | @both xs ys _ x y d hd h =>
    refine ⟨_, _, h, ?_, P.optimum_cons_cons_le hd _ _⟩
    have hd' : (P.compare x y).run = some d := hd
    simp [candidate, hd']

/-- The script of the recurrence with its moves is a path. -/
theorem path_best (xs : List α) (ys : List β) : P.Path xs ys (P.stepping.best tie xs ys).edits := by
  induction xs, ys using best.induct with
  | case1 =>
    rw [best]
    exact .done
  | case2 x xs ih =>
    rw [best]
    exact .delete x ih
  | case3 y ys ih =>
    rw [best]
    exact .insert y ih
  | case4 x xs y ys ih₁ ih₂ ih₃ =>
    rw [best_cons_cons]
    refine tie.pick_ind (p := fun s => P.Path (x :: xs) (y :: ys) s.edits) (.delete x ih₁)
      (.insert y ih₂) fun s hs => ?_
    obtain ⟨step, hstep, rfl⟩ := Option.map_eq_some_iff.1 hs
    obtain ⟨d, hd, rfl⟩ := Option.map_eq_some_iff.1 hstep
    exact .both hd ih₃

theorem pathCost_best (xs : List α) (ys : List β) :
    P.pathCost (P.stepping.best tie xs ys).edits = (P.stepping.best tie xs ys).total := by
  rw [pathCost_eq_sum, (P.stepping.exact_best tie xs ys).total_eq_sum, List.map_map]
  rfl

/-! ## First paths -/

/-- The steps are a path that comes before all other paths of the same cost, in the order of the
words of moves. -/
structure IsFirst (xs : List α) (ys : List β) (steps : List (Step δ)) : Prop where
  path : P.Path xs ys steps
  first : ∀ steps', P.Path xs ys steps' → P.pathCost steps' = P.pathCost steps →
    steps' = steps ∨ List.Lex tie.Precedes (steps.map Step.move) (steps'.map Step.move)

variable {P} in
/-- A cheapest path is the path of the recurrence or comes after it. -/
theorem Path.eq_or_lex_best {xs : List α} {ys : List β} {steps : List (Step δ)}
    (h : P.Path xs ys steps) (hcost : P.pathCost steps = P.optimum xs ys) :
    steps = (P.stepping.best tie xs ys).edits ∨
      List.Lex tie.Precedes ((P.stepping.best tie xs ys).edits.map Step.move)
        (steps.map Step.move) := by
  induction steps generalizing xs ys with
  | nil =>
    cases h
    rw [best]
    exact .inl rfl
  | cons step steps ih =>
    have hne : xs ≠ [] ∨ ys ≠ [] := by cases h <;> simp
    obtain ⟨xs', ys', hrest, hcandidate, hle⟩ := h.exists_candidate tie
    have hrestCost : P.pathCost steps = P.optimum xs' ys' :=
      hrest.pathCost_eq_optimum (hcost.trans_le hle)
    have htotal : (P.stepping.extend step (P.stepping.best tie xs' ys')).total =
        (P.stepping.best tie xs ys).total := by
      rw [total_extend, total_best, total_best, optimum_stepping, optimum_stepping, ← hcost,
        pathCost_cons, hrestCost]
      rfl
    obtain ⟨move, hbest, hfirst⟩ := P.exists_candidate_eq_best tie hne
    rcases hfirst step.move _ hcandidate htotal.le with hmove | hprecedes
    · -- the paths begin with the same step, and so the rests of them decide
      rw [← hmove, hcandidate, Option.some.injEq] at hbest
      rw [← hbest, edits_extend]
      rcases ih hrest hrestCost with rfl | hlex
      · exact .inl rfl
      · exact .inr (.cons hlex)
    · obtain ⟨d, steps', hsteps'⟩ := P.exists_edits_of_candidate tie hbest
      rw [hsteps']
      exact .inr (.rel hprecedes)

theorem isFirst_best (xs : List α) (ys : List β) :
    P.IsFirst tie xs ys (P.stepping.best tie xs ys).edits where
  path := P.path_best tie xs ys
  first steps' h hcost := by
    refine h.eq_or_lex_best tie ?_
    rw [hcost, pathCost_best, total_best, optimum_stepping]

/-- The recurrence writes the moves beside the edits as the search does. -/
theorem map_best_stepping (xs : List α) (ys : List β) :
    (P.stepping.best tie xs ys).map Step.edit = P.best tie xs ys := by
  have hextend : ∀ (step : Step δ) (s : Script (Step δ)),
      (P.stepping.extend step s).map Step.edit = P.extend step.edit (s.map Step.edit) := by
    intro step s
    simp only [extend, Script.cons, Script.map, List.map_cons]
    rw [← Script.total_map Step.edit s]
    rfl
  induction xs, ys using best.induct with
  | case1 => rw [best, best]; rfl
  | case2 x xs ih => rw [best, best, hextend, ih]; rfl
  | case3 y ys ih => rw [best, best, hextend, ih]; rfl
  | case4 x xs y ys ih₁ ih₂ ih₃ =>
    have hboth : ((P.stepping.compare x y).run.map fun step =>
        P.stepping.extend step (P.stepping.best tie xs ys)).map (Script.map Step.edit) =
          (P.compare x y).run.map fun d => P.extend d (P.best tie xs ys) := by
      simp [run_compare_stepping, Function.comp_def, hextend, ih₃]
    rw [best_cons_cons, best_cons_cons, ← TieBreak.pick_map, hextend, hextend, ih₁, ih₂, hboth]
    rfl

theorem sums_stepping (xs : List α) (ys : List β) : P.stepping.sums xs ys = P.sums xs ys := by
  cases xs with
  | nil =>
    cases ys with
    | nil => rfl
    | cons y ys =>
      rw [sums, sums, optimum_stepping]
      rfl
  | cons x xs =>
    cases ys with
    | nil =>
      rw [sums, sums, optimum_stepping]
      rfl
    | cons y ys =>
      rw [sums, sums, optimum_stepping, optimum_stepping, optimum_stepping]
      simp only [run_compare_stepping, Option.map_map]
      rfl

variable {P} in
theorem Fits.stepping {xs : List α} {ys : List β} (h : P.Fits xs ys) : P.stepping.Fits xs ys := by
  intro xs' ys' hx hy c hc
  rw [sums_stepping] at hc
  exact h xs' ys' hx hy c hc

end Policy

/-! ## The search -/

section

variable {m : Type → Type} [Monad m] [LawfulMonad m] [MonadLiftT (Except Fault) m]
  [LawfulMonadLiftT (Except Fault) m] (P : Policy Id α β δ) {xs : List α} {ys : List β}

/-- **The search takes the first of all cheapest paths**, where paths are ordered as words of their
moves, in the order of the tie break. -/
theorem cheapest_isFirst (h : P.Fits xs ys) (settings : Settings) (clock : m Instant) :
    ∃ s : Script (Step δ),
      (cheapestScript P.stepping.lift settings xs ys : m (Script (Step δ))) = pure s ∧
      P.IsFirst settings.tieBreak xs ys s.edits ∧ P.pathCost s.edits = s.total ∧
      (cheapestScript P.lift settings xs ys : m (Script δ)) = pure (s.map Step.edit) ∧
      (cheapestEdits P.lift settings xs ys : m (List δ)) = pure (s.edits.map Step.edit) ∧
      cheapestEditsWithin clock P.lift { settings with deadline := none } xs ys =
        pure (s.edits.map Step.edit) := by
  refine ⟨P.stepping.best settings.tieBreak xs ys, cheapestScript_lift _ h.stepping settings,
    P.isFirst_best _ xs ys, P.pathCost_best _ xs ys, ?_⟩
  rw [← Script.edits_map, P.map_best_stepping]
  exact ⟨cheapestScript_lift P h settings, cheapestEdits_lift P h settings,
    cheapestEditsWithin_lift P settings.tieBreak h clock⟩

theorem cheapest_isFirst_copying :
    ∃ s : Script (Step (Option Nat × Option Nat)),
      (cheapestScript (Policy.copying Nat).stepping.lift { tieBreak := .diagonal } [1, 2, 3]
        [2, 4] : Attempt Instant _) = pure s ∧
      (Policy.copying Nat).IsFirst .diagonal [1, 2, 3] [2, 4] s.edits ∧
      (Policy.copying Nat).pathCost s.edits = s.total ∧
      (cheapestScript (Policy.copying Nat).lift { tieBreak := .diagonal } [1, 2, 3] [2, 4] :
        Attempt Instant _) = pure (s.map Step.edit) ∧
      (cheapestEdits (Policy.copying Nat).lift { tieBreak := .diagonal } [1, 2, 3] [2, 4] :
        Attempt Instant _) = pure (s.edits.map Step.edit) ∧
      cheapestEditsWithin (get : Attempt Instant Instant) (Policy.copying Nat).lift
        { tieBreak := .diagonal } [1, 2, 3] [2, 4] = pure (s.edits.map Step.edit) ∧
      s.edits.map Step.edit = [(some 1, none), (some 2, some 2), (some 3, none), (none, some 4)] := by
  have hfits : (Policy.copying Nat).Fits [1, 2, 3] [2, 4] := Policy.fits_copying (by decide)
  obtain ⟨s, hs, hfirst, hcost, hscript, hedits, hwithin⟩ :=
    cheapest_isFirst (m := Attempt Instant) _ hfits { tieBreak := .diagonal } get
  have hrun : (cheapestEdits (Policy.copying Nat).lift { tieBreak := .diagonal } [1, 2, 3] [2, 4] :
      Attempt Instant _) ⟨0⟩ =
        .ok [(some 1, none), (some 2, some 2), (some 3, none), (none, some 4)] ⟨0⟩ := by
    decide +kernel
  have hsame := (congrFun hedits ⟨0⟩).symm.trans hrun
  exact ⟨s, hs, hfirst, hcost, hscript, hedits, hwithin, (EStateM.Result.ok.inj hsame).1⟩

end

end TreeDiff
