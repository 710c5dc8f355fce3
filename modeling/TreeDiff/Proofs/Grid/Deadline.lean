import TreeDiff.Grid.Timed
import TreeDiff.Proofs.Grid.Logs

/-!
# A search within a limit of time

A search with a deadline reads the clock before each comparison and nowhere else. It is the search
without a deadline up to the first comparison that would begin too late.

* `Policy.ClockFree`: what the callbacks answer does not depend on the clock, which they may
  advance.
* `Policy.Refines`: what the search with a deadline makes of the calls of the search without one.
* `cuttingShort`: the simulation of a run with a deadline by the run without one that reads the
  clock at the same moments.
* `cheapestEditsWithin_refines`: the search with a deadline refines the search without one.
-/

namespace TreeDiff

variable {σ υ α β γ γ' δ τ : Type}

/-! ## The calls and the limit -/

/-- The simulation of a run with a deadline, which writes its calls to a log, by a run without one
that reads the clock before its comparisons. If none of them begins too late, the runs are the same;
otherwise the first one ends with a timeout, and its log with the last call in time. -/
def cuttingShort (σ α β δ : Type) (limit : Instant) :
    Simulation (ExceptT Timeout (Attempt (σ × Array (Call α β δ))))
      (ExceptT Empty (Attempt (σ × Array (TimedCall α β δ)))) where
  Rel Q x y := ∀ s log a s' log', y.run (s, log) = .ok (.ok a) (s', log') →
    ∃ calls, log'.toList = log.toList ++ calls ∧ Q a ∧
      (¬ TimedCall.AnyLate limit calls →
        x.run (s, TimedCall.trace log.toList) = .ok (.ok a) (s', TimedCall.trace log'.toList)) ∧
      (TimedCall.AnyLate limit calls → ∃ t s'', x.run (s, TimedCall.trace log.toList) =
        .ok (.error t) (s'', TimedCall.trace (log.toList ++ TimedCall.inTime limit calls)))
  pure h := by
    rintro s log a s' log' ⟨⟩
    exact ⟨[], (List.append_nil _).symm, h, fun _ => rfl,
      fun hlate => absurd hlate (TimedCall.not_anyLate_nil limit)⟩
  bind := by
    intro _ _ Q R x y f g hx hf s log b s' log' hrun
    obtain ⟨a, ⟨s₁, log₁⟩, ha, hb⟩ := Attempt.run_bind_eq_ok hrun
    obtain ⟨calls, hlog, hQ, htime, hlate⟩ := hx s log a s₁ log₁ ha
    obtain ⟨calls', hlog', hR, htime', hlate'⟩ := hf a hQ s₁ log₁ b s' log' hb
    refine ⟨calls ++ calls', by rw [hlog', hlog, List.append_assoc], hR, fun hnone => ?_,
      fun hsome => ?_⟩
    · rw [TimedCall.anyLate_append, not_or] at hnone
      rw [Attempt.run_bind, htime hnone.1]
      exact htime' hnone.2
    · rw [Attempt.run_bind]
      by_cases hcalls : TimedCall.AnyLate limit calls
      · obtain ⟨t, s'', hx⟩ := hlate hcalls
        rw [hx, TimedCall.inTime_append_of_anyLate hcalls]
        exact ⟨t, s'', rfl⟩
      · obtain ⟨t, s'', hf⟩ := hlate' ((TimedCall.anyLate_append.1 hsome).resolve_left hcalls)
        rw [htime hcalls, TimedCall.inTime_append_of_not_anyLate hcalls, ← List.append_assoc,
          ← hlog]
        exact ⟨t, s'', hf⟩

namespace Policy

/-- What `view` shows of the state is all that the answers of the policy depend on, and reading the
clock leaves it as it is. -/
structure ClockFree (P : Policy (Attempt σ) α β δ) (clock : Attempt σ Instant) (view : σ → υ) :
    Prop where
  clock_ok : ∀ s, ∃ now s', clock s = .ok now s' ∧ view s' = view s
  compare_ok : ∀ {x y s₁ s₂ o s₁'}, view s₁ = view s₂ → P.compare x y s₁ = .ok o s₁' →
    ∃ s₂', P.compare x y s₂ = .ok o s₂' ∧ view s₁' = view s₂'
  cost_ok : ∀ {d s₁ s₂ c s₁'}, view s₁ = view s₂ → P.cost d s₁ = .ok c s₁' →
    ∃ s₂', P.cost d s₂ = .ok c s₂' ∧ view s₁' = view s₂'

variable {P : Policy (Attempt σ) α β δ} {clock : Attempt σ Instant}

theorem timed_compare_eq_ok_iff {x : α} {y : β} {o : Option δ} {s s' : σ}
    {log log' : Array (TimedCall α β δ)} :
    (P.timed clock).compare x y (s, log) = .ok o (s', log') ↔
      ∃ now s₁, clock s = .ok now s₁ ∧ P.compare x y s₁ = .ok o s' ∧
        log.push (.compare x y now) = log' := by
  constructor
  · intro h
    obtain ⟨now, ⟨s₁, log₁⟩, hclock, h⟩ := Attempt.bind_eq_ok_iff.1 h
    obtain ⟨hnow, rfl⟩ := Attempt.onFst_eq_ok_iff.1 hclock
    obtain ⟨ho, hlog⟩ := Attempt.record_onFst_eq_ok_iff.1 h
    exact ⟨now, s₁, hnow, ho, hlog⟩
  · rintro ⟨now, s₁, hnow, ho, hlog⟩
    refine Attempt.bind_eq_ok_iff.2 ⟨now, (s₁, log), Attempt.onFst_eq_ok_iff.2 ⟨hnow, rfl⟩, ?_⟩
    exact Attempt.record_onFst_eq_ok_iff.2 ⟨ho, hlog⟩

theorem timed_cost_eq_ok_iff {d : δ} {c : Nat} {s s' : σ} {log log' : Array (TimedCall α β δ)} :
    (P.timed clock).cost d (s, log) = .ok c (s', log') ↔
      P.cost d s = .ok c s' ∧ log.push (.cost d) = log' :=
  Attempt.record_onFst_eq_ok_iff

end Policy

/-- The simulation of a run that reads the clock, and writes its calls with the readings to a log,
by a run that does not read it. The states may differ in what `view` does not show. -/
def untimed (α β δ : Type) (view : σ → υ) :
    Simulation (Attempt (σ × Array (TimedCall α β δ))) (Attempt (σ × Array (Call α β δ))) where
  Rel Q x y := ∀ s s₂ log a s₂' log₂', view s = view s₂ →
    y (s₂, TimedCall.trace log.toList) = .ok a (s₂', log₂') → Q a ∧ ∃ s' log',
      x (s, log) = .ok a (s', log') ∧ view s' = view s₂' ∧ TimedCall.trace log'.toList = log₂'
  pure h := by
    rintro s s₂ log a s₂' log₂' hview ⟨⟩
    exact ⟨h, s, log, rfl, hview, rfl⟩
  bind := by
    intro _ _ Q R x y f g hx hf s s₂ log b s₂'' log₂'' hview hrun
    obtain ⟨a, ⟨s₂', log₂'⟩, ha, hb⟩ := Attempt.bind_eq_ok_iff.1 hrun
    obtain ⟨hQ, s', log', hx', hview', rfl⟩ := hx s s₂ log a s₂' log₂' hview ha
    obtain ⟨hR, s'', log'', hf', hview'', rfl⟩ := hf a hQ s' s₂' log' b s₂'' log₂'' hview' hb
    exact ⟨hR, s'', log'', Attempt.bind_eq_ok_iff.2 ⟨a, (s', log'), hx', hf'⟩, hview'', rfl⟩

namespace Policy

variable {P : Policy (Attempt σ) α β δ} {clock : Attempt σ Instant} {view : σ → υ}

/-- Reading the clock before comparisons does not change what a policy does. -/
theorem ClockFree.related_timed (h : P.ClockFree clock view) (xs : List α) (ys : List β) :
    Related ((untimed α β δ view).exceptT Empty) (P.timed clock) P.traced .never .never
      (fun _ _ _ => True) xs ys := by
  refine .of_steps rfl rfl rfl (fun _ _ => (untimed α β δ view).pure trivial)
    (fun x _ y _ => ?_) (fun d => ?_) fun Q => ?_
  · intro s s₂ log o s₂' log₂' hview hrun
    obtain ⟨ho, rfl⟩ := traced_compare_eq_ok_iff.1 hrun
    obtain ⟨now, s₁, hclock, hview₁⟩ := h.clock_ok s
    obtain ⟨s', ho', hview'⟩ := h.compare_ok (hview₁.trans hview).symm ho
    refine ⟨fun _ _ => trivial, s', _, timed_compare_eq_ok_iff.2 ⟨now, s₁, hclock, ho', rfl⟩,
      hview'.symm, ?_⟩
    rw [Array.toList_push, TimedCall.trace_concat]
    rfl
  · intro s s₂ log c s₂' log₂' hview hrun
    obtain ⟨hc, rfl⟩ := traced_cost_eq_ok_iff.1 hrun
    obtain ⟨s', hc', hview'⟩ := h.cost_ok hview.symm hc
    refine ⟨trivial, s', _, timed_cost_eq_ok_iff.2 ⟨hc', rfl⟩, hview'.symm, ?_⟩
    rw [Array.toList_push, TimedCall.trace_concat]
    rfl
  · rintro s s₂ log a s₂' log₂' hview ⟨⟩

end Policy

/-! ## Positions within the limit -/

/-- The same simulation for steps that do not ask whether there is time. -/
abbrev keepingOn (σ α β δ : Type) (limit : Instant) :
    Simulation (Attempt (σ × Array (Call α β δ))) (Attempt (σ × Array (TimedCall α β δ))) :=
  (cuttingShort σ α β δ limit).comap _ _

section

variable (P : Policy (Attempt σ) α β δ) (clock : Attempt σ Instant) {limit : Instant}

theorem cuttingShort_except {Q : γ → Prop} {x : Except Fault γ} (hQ : ∀ a, x = .ok a → Q a) :
    ((cuttingShort σ α β δ limit).comap (Except Fault) (Except Fault)).Rel Q x x := by
  cases x with
  | ok a => exact (cuttingShort σ α β δ limit).pure (hQ a rfl)
  | error e => rintro s log a s' log' ⟨⟩

theorem keepingOn_cost (d : δ) :
    (keepingOn σ α β δ limit).Rel (fun _ => True) (P.traced.cost d) ((P.timed clock).cost d) := by
  intro s log c s' log' hrun
  obtain ⟨hc, rfl⟩ := Policy.timed_cost_eq_ok_iff.1 (Attempt.run_liftM_eq_ok_iff.1 hrun)
  refine ⟨[.cost d], Array.toList_push, trivial, fun _ => ?_, ?_⟩
  · rw [Attempt.run_liftM_eq_ok_iff, Policy.traced_cost_eq_ok_iff, Array.toList_push,
      TimedCall.trace_concat]
    exact ⟨hc, rfl⟩
  · rintro ⟨c, hc, hlate⟩
    obtain rfl := List.mem_singleton.1 hc
    cases hlate

/-- The check of a deadline reads the clock once. -/
theorem Interrupt.run_check_deadline (clock : Attempt σ Instant) (limit : Instant)
    (solved total : Nat) (s : σ) :
    ((Interrupt.deadline clock (some limit)).check solved total).run s = match clock s with
      | .ok now s' => .ok (if now.reaches limit then .error ⟨solved, total⟩ else .ok ()) s'
      | .error e s' => .error e s' := by
  unfold Interrupt.check Interrupt.deadline
  rw [Attempt.run_liftM_bind]
  simp only [bind, EStateM.bind]
  cases clock s with
  | error e s' => rfl
  | ok now s' =>
    simp only [pure, EStateM.pure]
    cases now.reaches limit <;> rfl

/-- The check of a position and its comparison, as the comparison that reads the clock. -/
theorem cuttingShort_compare (x : α) (y : β) (solved total : Nat) :
    (cuttingShort σ α β δ limit).Rel (fun _ => True)
      (do
        (Interrupt.deadline clock.onFst (some limit)).check solved total
        liftM (P.traced.compare x y))
      (do
        Interrupt.never.check solved total
        liftM ((P.timed clock).compare x y)) := by
  intro s log o s' log' hrun
  obtain ⟨_, s₀, hnever, hrun⟩ := Attempt.run_bind_eq_ok hrun
  cases hnever
  obtain ⟨now, s₁, hclock, ho, rfl⟩ :=
    Policy.timed_compare_eq_ok_iff.1 (Attempt.run_liftM_eq_ok_iff.1 hrun)
  have hread : clock.onFst (s, TimedCall.trace log.toList) =
      .ok now (s₁, TimedCall.trace log.toList) := Attempt.onFst_eq_ok_iff.2 ⟨hclock, rfl⟩
  refine ⟨[.compare x y now], Array.toList_push, trivial, fun hnone => ?_, fun hsome => ?_⟩
  · have hlate : now.reaches limit = false :=
      eq_false_of_ne_true fun hlate => hnone (TimedCall.anyLate_singleton.2 hlate)
    rw [Attempt.run_bind, Interrupt.run_check_deadline, hread]
    simp only [hlate, Bool.false_eq_true, if_false]
    rw [Attempt.run_liftM_eq_ok_iff, Policy.traced_compare_eq_ok_iff, Array.toList_push,
      TimedCall.trace_concat]
    exact ⟨ho, rfl⟩
  · have hlate : now.reaches limit = true := TimedCall.anyLate_singleton.1 hsome
    have hnone : TimedCall.inTime limit [TimedCall.compare (δ := δ) x y now] = [] :=
      TimedCall.inTime_singleton_of_late hlate
    rw [Attempt.run_bind, Interrupt.run_check_deadline, hread, hnone, List.append_nil]
    simp only [hlate, if_true]
    exact ⟨_, s₁, rfl⟩

theorem keepingOn_afterCompare (tie : TieBreak) (viaDelete viaInsert both : Script δ)
    (o : Option δ) :
    (keepingOn σ α β δ limit).Rel (fun _ => True)
      (P.traced.afterCompare tie viaDelete viaInsert both o)
      ((P.timed clock).afterCompare tie viaDelete viaInsert both o) := by
  cases o with
  | none => exact (keepingOn σ α β δ limit).pure trivial
  | some d =>
    refine (keepingOn σ α β δ limit).bind (keepingOn_cost P clock d) fun c _ => ?_
    have hprepend : (keepingOn σ α β δ limit).Rel (fun _ => True)
        (liftM (both.prepend P.ceiling d c)) (liftM (both.prepend P.ceiling d c)) :=
      cuttingShort_except fun _ _ => trivial
    exact (keepingOn σ α β δ limit).bind hprepend fun _ _ => (keepingOn σ α β δ limit).pure trivial

/-- Every step of a search with a deadline is that of the search without one, up to the first
comparison that would begin too late. -/
theorem gridRule_cuttingShort (limit : Instant) (tie : TieBreak) (xs : List α) (ys : List β) :
    GridRule ((cuttingShort σ α β δ limit).tracking Unit) P.traced (P.timed clock) tie
      (.deadline clock.onFst (some limit)) .never xs ys (fun _ _ => True) (fun _ _ _ => True)
      (fun _ _ _ => True) where
  delete_eq := rfl
  insert_eq := rfl
  loss _ _ := keepingOn_cost P clock _
  gain _ _ := keepingOn_cost P clock _
  done := trivial
  delete _ _ _ := cuttingShort_except fun _ _ => trivial
  insert _ _ _ := cuttingShort_except fun _ _ => trivial
  position := by
    intro x xs' y ys' c c' lost gained both _ _ _ _ _ _ _ solved total _ _ s log script s' log' hrun
    -- the prices of deletion and insertion stand between the check and the comparison
    obtain ⟨_, s₁, -, hcell⟩ := Attempt.run_bind_eq_ok hrun
    obtain ⟨viaDelete, viaInsert, hdelete, hinsert⟩ :=
      Policy.exists_prepend_of_cell (Attempt.run_liftM_eq_ok_iff.1 hcell)
    have htimed := Policy.cell_eq_of_ok (P.timed clock) tie both hdelete hinsert
    have htraced := Policy.cell_eq_of_ok P.traced tie both hdelete hinsert
    have hrel := (cuttingShort σ α β δ limit).bind
      (cuttingShort_compare P clock x y solved total)
      fun o _ => keepingOn_afterCompare P clock tie viaDelete viaInsert both o
    rw [htimed, liftM_bind, ← bind_assoc] at hrun
    rw [htraced, liftM_bind, ← bind_assoc]
    exact hrel s log script s' log' hrun

end

/-! ## The call with a deadline -/

/-- What the search with a deadline makes of the search without one. The latter returns `edits` from
the state `s` by the calls `calls`; the readings of the clock are those of the run that has read the
clock once, at the start, and then reads it before each comparison. -/
structure Policy.Refines (P : Policy (Attempt σ) α β δ) (clock : Attempt σ Instant)
    (settings : Settings) (xs : List α) (ys : List β) (limit : Instant) (s s₁ : σ)
    (edits : List δ) (calls : List (TimedCall α β δ)) : Prop where
  free : ∃ s', cheapestEdits P settings xs ys s = .ok edits s'
  traced : ∃ s', cheapestEdits P.traced settings xs ys (s, #[]) =
    .ok edits (s', TimedCall.trace calls)
  timed : ∃ s', cheapestEdits (P.timed clock) settings xs ys (s₁, #[]) =
    .ok edits (s', calls.toArray)
  /-- Every pair of elements is compared once. -/
  compared : calls.filterMap TimedCall.pair? = (xs ×ˢ ys).reverse
  /-- If every comparison begins in time, the search with a deadline returns the same edits by the
  same calls. Otherwise it returns a timeout, and its calls are those before the first comparison
  that would begin too late. -/
  within : ∃ result s', (cheapestEditsWithin clock P settings xs ys).run s = .ok result s' ∧
    (cheapestEditsWithin clock.onFst P.traced settings xs ys).run (s, #[]) =
      .ok result (s', TimedCall.trace (TimedCall.inTime limit calls)) ∧
    (¬ TimedCall.AnyLate limit calls → result = .ok edits) ∧
    (TimedCall.AnyLate limit calls → ∃ t, result = .error t)
  /-- If nothing is compared, the time does not run out. -/
  within_of_nil : xs = [] ∨ ys = [] →
    ∃ s', (cheapestEditsWithin clock P settings xs ys).run s = .ok (.ok edits) s'

section

variable {P : Policy (Attempt σ) α β δ} {clock : Attempt σ Instant} {view : σ → υ} {tie : TieBreak}
  {xs : List α} {ys : List β} {s s₁ s' : σ}

/-- The readings of the clock before the comparisons. -/
theorem Policy.ClockFree.exists_calls (h : P.ClockFree clock view) (hview : view s₁ = view s)
    {script : Script δ} {log : Array (Call α β δ)}
    (hrun : (search P.traced tie .never xs ys).run (s, #[]) = .ok (.ok script) (s', log)) :
    ∃ calls s₁', (search (P.timed clock) tie .never xs ys).run (s₁, #[]) =
      .ok (.ok script) (s₁', calls.toArray) ∧ TimedCall.trace calls = log := by
  have huntimed := (h.related_timed xs ys).search tie
  obtain ⟨-, s₁', log', hrun', -, hlog⟩ := huntimed s₁ s #[] _ s' log hview hrun
  exact ⟨log'.toList, s₁', by rwa [Array.toArray_toList], hlog⟩

/-- Each comparison is written to the log with its elements. -/
theorem visits_timed (P : Policy (Attempt σ) α β δ) (clock : Attempt σ Instant) :
    Policy.Visits (fun pairs s => s.2.toList.filterMap TimedCall.pair? = pairs.reverse)
      (P.timed clock) .never where
  check := by
    rintro pairs s s' o solved total hs ⟨⟩
    exact hs
  cost := by
    rintro pairs ⟨s, log⟩ ⟨s', log'⟩ d c hs hrun
    obtain ⟨-, rfl⟩ := Policy.timed_cost_eq_ok_iff.1 hrun
    rw [Array.toList_push, List.filterMap_append, hs]
    exact List.append_nil _
  compare := by
    rintro pairs ⟨s, log⟩ ⟨s', log'⟩ x y o hs hrun
    obtain ⟨now, s₁, -, -, rfl⟩ := Policy.timed_compare_eq_ok_iff.1 hrun
    rw [Array.toList_push, List.filterMap_append, hs, List.reverse_cons]
    rfl

/-- What the search with a deadline does, in terms of the calls of the search without one. -/
theorem run_within (limit : Instant) {calls : List (TimedCall α β δ)} {script : Script δ}
    (htimed : (search (P.timed clock) tie .never xs ys).run (s₁, #[]) =
      .ok (.ok script) (s', calls.toArray)) :
    ∃ result s'', (search P tie (.deadline clock (some limit)) xs ys).run s₁ = .ok result s'' ∧
      (search P.traced tie (.deadline clock.onFst (some limit)) xs ys).run (s₁, #[]) =
        .ok result (s'', TimedCall.trace (TimedCall.inTime limit calls)) ∧
      (¬ TimedCall.AnyLate limit calls → result = .ok script) ∧
      (TimedCall.AnyLate limit calls → ∃ t, result = .error t) := by
  have hcut := (gridRule_cuttingShort P clock limit tie xs ys).search
  obtain ⟨calls', hcalls, -, htime, hlate⟩ := hcut s₁ #[] script s' calls.toArray htimed
  obtain rfl : calls = calls' := hcalls
  by_cases hany : TimedCall.AnyLate limit calls
  · obtain ⟨t, s'', hrun⟩ := hlate hany
    have hplain := hrun
    rw [← Interrupt.onFst_deadline] at hplain
    exact ⟨.error t, s'', run_of_traced hplain, hrun, fun hnone => absurd hany hnone,
      fun _ => ⟨t, rfl⟩⟩
  · have hrun := htime hany
    rw [← TimedCall.inTime_of_not_anyLate hany] at hrun
    have hplain := hrun
    rw [← Interrupt.onFst_deadline] at hplain
    exact ⟨.ok script, s', run_of_traced hplain, hrun, fun _ => rfl, fun hsome => absurd hsome hany⟩

/-- **A search with a deadline refines the search without one.** -/
theorem cheapestEditsWithin_refines {settings : Settings} {d : Duration} {start limit : Instant}
    (h : P.ClockFree clock view) (hdeadline : settings.deadline = some d)
    (hclock : clock s = .ok start s₁) (hlimit : start.after d = .ok limit)
    (hfault : ∀ e s', cheapestEdits P settings xs ys s ≠ .error e s') :
    ∃ edits calls, P.Refines clock settings xs ys limit s s₁ edits calls := by
  have hview : view s₁ = view s := by
    obtain ⟨now, s', hclock', hview⟩ := h.clock_ok s
    cases hclock.symm.trans hclock'
    exact hview
  have hread : clock.onFst (s, (#[] : Array (Call α β δ))) = .ok start (s₁, #[]) :=
    Attempt.onFst_eq_ok_iff.2 ⟨hclock, rfl⟩
  -- the search without a deadline, then with a log, then with the readings of the clock
  obtain ⟨edits, s', hfree⟩ : ∃ edits s', cheapestEdits P settings xs ys s = .ok edits s' := by
    cases hrun : cheapestEdits P settings xs ys s with
    | ok edits s' => exact ⟨edits, s', rfl⟩
    | error e s' => exact absurd hrun (hfault e s')
  obtain ⟨script, hsearch, rfl⟩ := cheapestEdits_eq_ok_iff.1 hfree
  obtain ⟨log, htraced⟩ := exists_trace hsearch #[]
  obtain ⟨calls, s₁', htimed, rfl⟩ := h.exists_calls hview htraced
  have hcompared := (visits_timed P clock).search rfl htimed
  -- the search with a deadline, from the state after the start
  obtain ⟨result, s'', hplain, hlog, htime, hlate⟩ := run_within limit htimed
  have hrun := run_cheapestEditsWithin P hdeadline hclock hlimit xs ys
  have hrun' := run_cheapestEditsWithin P.traced hdeadline hread hlimit xs ys
  rw [hplain] at hrun
  rw [hlog] at hrun'
  have htime' : ¬ TimedCall.AnyLate limit calls → result.map Script.edits = .ok script.edits := by
    intro hnone
    rw [htime hnone]
    rfl
  refine ⟨script.edits, calls, ⟨s', hfree⟩, ?_, ?_, hcompared,
    ⟨_, s'', hrun, hrun', htime', ?_⟩, ?_⟩
  · exact ⟨s', cheapestEdits_eq_ok_iff.2 ⟨script, htraced, rfl⟩⟩
  · exact ⟨s₁', cheapestEdits_eq_ok_iff.2 ⟨script, htimed, rfl⟩⟩
  · intro hsome
    obtain ⟨t, rfl⟩ := hlate hsome
    exact ⟨t, rfl⟩
  · intro hnil
    have hnone : ¬ TimedCall.AnyLate limit calls := by
      intro hany
      obtain ⟨p, hp⟩ := hany.exists_pair
      rw [hcompared, List.mem_reverse, List.mem_product] at hp
      rcases hnil with rfl | rfl
      · exact absurd hp.1 List.not_mem_nil
      · exact absurd hp.2 List.not_mem_nil
    rw [← htime' hnone]
    exact ⟨s'', hrun⟩

end

/-- The policy on a count of its calls and a clock. It matches whatever it is asked about, but only
when the count is even; a comparison takes ten nanoseconds, and finding a price takes one. -/
def Policy.ticking : Policy (Attempt (Nat × Instant)) Nat Nat (Option Nat × Option Nat) where
  delete x := (some x, none)
  insert y := (none, some y)
  compare x y s := .ok (if s.1 % 2 = 0 then some (some x, some y) else none)
    (s.1 + 1, s.2.later ⟨10⟩)
  cost _ s := .ok 1 (s.1 + 1, s.2.later ⟨1⟩)

/-- The clock of the policy. -/
def Policy.tickingClock : Attempt (Nat × Instant) Instant := fun s => .ok s.2 s

theorem Policy.clockFree_ticking : Policy.ticking.ClockFree Policy.tickingClock Prod.fst where
  clock_ok s := ⟨s.2, s, rfl, rfl⟩
  compare_ok := by
    rintro x y ⟨n, t₁⟩ ⟨_, t₂⟩ o s₁' rfl ⟨⟩
    exact ⟨(n + 1, t₂.later ⟨10⟩), rfl, rfl⟩
  cost_ok := by
    rintro d ⟨n, t₁⟩ ⟨_, t₂⟩ c s₁' rfl ⟨⟩
    exact ⟨(n + 1, t₂.later ⟨1⟩), rfl, rfl⟩

theorem cheapestEditsWithin_refines_ticking :
    ((∃ edits calls, Policy.ticking.Refines Policy.tickingClock { deadline := some ⟨20⟩ } [1, 2]
        [3, 4] ⟨20⟩ (0, ⟨0⟩) (0, ⟨0⟩) edits calls) ∧
      (cheapestEditsWithin Policy.tickingClock Policy.ticking { deadline := some ⟨20⟩ } [1, 2]
        [3, 4]).run (0, ⟨0⟩) = .ok (.error ⟨7, 9⟩) (8, ⟨26⟩)) ∧
    (∃ edits calls, Policy.ticking.Refines Policy.tickingClock { deadline := some ⟨60⟩ } [1, 2]
        [3, 4] ⟨60⟩ (0, ⟨0⟩) (0, ⟨0⟩) edits calls) ∧
      (cheapestEditsWithin Policy.tickingClock Policy.ticking { deadline := some ⟨60⟩ } [1, 2]
        [3, 4]).run (0, ⟨0⟩) = .ok (.ok [(some 1, some 3), (some 2, some 4)]) (12, ⟨48⟩) := by
  refine ⟨⟨cheapestEditsWithin_refines Policy.clockFree_ticking rfl rfl rfl nofun, ?_⟩,
    cheapestEditsWithin_refines Policy.clockFree_ticking rfl rfl rfl nofun, ?_⟩
  · decide +kernel
  · decide +kernel

end TreeDiff
