import TreeDiff.Differ.Watch
import TreeDiff.Proofs.Differ.Runs
import TreeDiff.Proofs.Grid.Paths

/-!
# The watch changes nothing

A call may log its readings of the clock, and it may be watched. In both cases it does what the call
does, and returns what it returns; and the log has the readings that the watch has.

* `Differ.related_onFst`: the readings of the clock can be logged without a change to the call.
* `Interrupt.run_watched`, `Watch.run_inside`: what a check and a comparison do to the watch.
* `Differ.logging_watchedMatch?`, `Differ.logging_watchedSearch`: matches and searches that are
  watched are simulated by those that log their readings.
* `Differ.exists_watched`: a search that returns returns the same with a log, and watched.
-/

namespace TreeDiff

variable {σ γ γ' ℓ τ : Type}

/-! ## The log of the clock -/

namespace Differ

variable (D : Differ (Attempt σ) ℓ) (clock : Attempt σ Instant) (limit : Instant)

/-- The simulation that forgets the log of the clock. -/
abbrev dropLog (σ : Type) :
    Simulation (ExceptT Timeout (Reporting Timeout (Attempt (σ × Array Instant))))
      (ExceptT Timeout (Reporting Timeout (Attempt σ))) :=
  ((Attempt.forgetting σ (Array Instant)).stateT (Option Timeout)).exceptT Timeout

/-- Writing a log of the clock does not change what a differ does. -/
theorem related_onFst :
    Related (dropLog σ) (D.onFst _) D (.deadline clock.logged (some limit))
      (.deadline clock (some limit)) where
  tieBreak_eq := rfl
  check solved total := by
    refine ((Attempt.forgetting σ _).stateT _).check ((Attempt.forgetting σ _).stateT_liftM ?_)
    have hclock := Attempt.forgetting_logged clock
    exact (Attempt.forgetting σ _).deadline hclock (some limit) solved total
  cost d := by
    refine ((Attempt.forgetting σ _).stateT _).exceptT_liftM ?_
    exact (Attempt.forgetting σ _).stateT_liftM (Attempt.forgetting_onFst _)
  prepend d c t := Reporting.rel_except _ (Attempt.forgetting_throw _) fun _ _ => trivial
  node h := by
    refine ((Attempt.forgetting σ _).stateT _).exceptT_liftM ?_
    exact Simulation.mono _ (stateT_matchNode _ rfl h) fun _ _ => trivial

end Differ

/-! ## The watch after a check and after a comparison -/

theorem Interrupt.run_watched (clock : Attempt σ Instant) (limit : Instant) (solved total : Nat)
    (s : σ) (w : Watch ℓ) :
    Interrupt.watched clock (some limit) solved total (s, w) = match clock s with
      | .ok now s' => .ok (if now.reaches limit then some ⟨solved, total⟩ else none)
          (s', (w.moveTo solved).checked now)
      | .error e s' => .error e (s', w.moveTo solved) := by
  simp only [Interrupt.watched, Interrupt.deadline, Watch.clock, Attempt.beside, bind, EStateM.bind,
    Attempt.onFst_apply]
  cases clock s <;> rfl

theorem Watch.run_inside (a b : Tree ℓ) (x : Reporting τ (Attempt (σ × Watch ℓ)) γ)
    (r : Option τ) (s : σ) (w : Watch ℓ) :
    (Watch.inside a b x).run r (s, w) = match x.run r (s, w.enter a b) with
      | .ok p s' => .ok p (s'.1, s'.2.leave w)
      | .error e s' => .error e s' := by
  have hbody : (Watch.inside a b x).run r (s, w) =
      ((x.run r) >>= fun p => (Attempt.beside (·.leave w) >>= fun _ => pure p))
        (s, w.enter a b) := rfl
  rw [hbody]
  simp only [bind, EStateM.bind]
  cases x.run r (s, w.enter a b) <;> rfl

/-! ## The log of the watch -/

/-- The simulation that sees of the watch no more than the readings, in a log that begins with
`log`. -/
abbrev logging (σ ℓ : Type) (log : Array Instant) :
    Simulation (Reporting Timeout (Attempt (σ × Watch ℓ)))
      (Reporting Timeout (Attempt (σ × Array Instant))) :=
  (Attempt.viewing σ fun w : Watch ℓ => log ++ w.readings).stateT (Option Timeout)

variable {log : Array Instant}

theorem viewing_watched (clock : Attempt σ Instant) (limit : Instant) (solved total : Nat) :
    (Attempt.viewing σ fun w : Watch ℓ => log ++ w.readings).Rel (fun _ => True)
      (Interrupt.watched clock (some limit) solved total)
      (Interrupt.deadline clock.logged (some limit) solved total) := by
  intro s w
  have hdeadline : Interrupt.deadline clock.logged (some limit) solved total
      (s, log ++ w.readings) = match clock s with
        | .ok now s' => .ok (if now.reaches limit then some ⟨solved, total⟩ else none)
            (s', (log ++ w.readings).push now)
        | .error e s' => .error e (s', log ++ w.readings) := by
    simp only [Interrupt.deadline, bind, EStateM.bind, Attempt.logged_apply]
    cases clock s <;> rfl
  rw [Interrupt.run_watched, hdeadline]
  cases clock s with
  | ok now s' =>
    have hpush : log ++ ((w.moveTo solved).checked now).readings = (log ++ w.readings).push now := by
      rw [Watch.readings_checked, Array.push_eq_append, Array.push_eq_append, Array.append_assoc]
      rfl
    refine ⟨trivial, ?_⟩
    show _ = EStateM.Result.ok _ (s', log ++ ((w.moveTo solved).checked now).readings)
    rw [hpush]
  | error e s' => rfl

theorem logging_inside {a b : Tree ℓ} {Q : γ → Prop}
    {x : Reporting Timeout (Attempt (σ × Watch ℓ)) γ}
    {y : Reporting Timeout (Attempt (σ × Array Instant)) γ} (h : (logging σ ℓ log).Rel Q x y) :
    (logging σ ℓ log).Rel Q (Watch.inside a b x) y := by
  intro r s w
  have hrun := h r s (w.enter a b)
  simp only [Watch.readings_enter] at hrun
  rw [Watch.run_inside]
  cases hx : x.run r (s, w.enter a b) with
  | ok p s' =>
    rw [hx] at hrun
    exact hrun
  | error e s' =>
    rw [hx] at hrun
    exact hrun

namespace Differ

variable (D : Differ (Attempt σ) ℓ)

/-- The policy of the searches that are watched, on trees in place of candidates. -/
def watchedPolicy (interrupt : Interrupt (Attempt (σ × Watch ℓ)) τ) :
    Policy (Reporting τ (Attempt (σ × Watch ℓ))) (Tree ℓ) (Tree ℓ) (Diff ℓ) :=
  (D.onFst _).policy.onFirst fun a => ⟨a, fun b => Watch.inside a b (D.watchedMatch? interrupt a b)⟩

theorem searchScript_watchedCandidates (interrupt : Interrupt (Attempt (σ × Watch ℓ)) τ)
    (as bs : List (Tree ℓ)) :
    (D.onFst _).searchScript interrupt (D.watchedCandidates interrupt as) bs =
      search (D.watchedPolicy interrupt) D.settings.tieBreak (asking interrupt) as bs := by
  rw [watchedCandidates_eq_map]
  exact search_map (D.onFst _).policy _ _ _ as bs

variable (clock : Attempt σ Instant) (limit : Instant) (log : Array Instant)

/-- A search that is watched is simulated if its comparisons are. -/
theorem logging_searchScript (as bs : List (Tree ℓ))
    (hcompare : ∀ a ∈ as, ∀ b ∈ bs, (logging σ ℓ log).Rel (fun _ => True)
      (D.watchedMatch? (.watched clock (some limit)) a b)
      ((D.onFst _).match? (.deadline clock.logged (some limit)) a b)) :
    ((logging σ ℓ log).exceptT Timeout).Rel (fun _ => True)
      ((D.onFst _).searchScript (.watched clock (some limit))
        (D.watchedCandidates (.watched clock (some limit)) as) bs)
      ((D.onFst _).searchScript (.deadline clock.logged (some limit))
        ((D.onFst _).candidates (.deadline clock.logged (some limit)) as) bs) := by
  have hrelated : Policy.Related ((logging σ ℓ log).exceptT Timeout)
      (D.watchedPolicy (.watched clock (some limit)))
      ((D.onFst _).treePolicy (.deadline clock.logged (some limit)))
      (asking (.watched clock (some limit))) (asking (.deadline clock.logged (some limit)))
      (fun _ _ _ => True) as bs := by
    refine .of_steps rfl rfl rfl (fun solved total => ?_) (fun a ha b hb => ?_) (fun d => ?_)
      fun Q => ?_
    · exact (Attempt.viewing σ _).stateT_liftM (viewing_watched clock limit solved total)
    · have hinside := logging_inside (a := a) (b := b) (hcompare a ha b hb)
      exact (logging σ ℓ log).mono hinside fun _ _ _ _ => trivial
    · exact (Attempt.viewing σ _).stateT_liftM (Attempt.viewing_onFst _ _)
    · exact (Attempt.viewing σ _).stateT_liftM (Attempt.viewing_throw _ Q _)
  rw [searchScript_watchedCandidates, searchScript_candidates]
  exact Simulation.mono _ (hrelated.search D.settings.tieBreak) fun _ _ => trivial

/-- **Every match that is watched is simulated.** -/
theorem logging_watchedMatch? (a b : Tree ℓ) :
    (logging σ ℓ log).Rel (fun _ => True) (D.watchedMatch? (.watched clock (some limit)) a b)
      ((D.onFst _).match? (.deadline clock.logged (some limit)) a b) := by
  induction a using Tree.induct generalizing b with
  | step l cs ih =>
    have hsearch := D.logging_searchScript clock limit log cs b.children fun a ha b _ => ih a ha b
    rw [watchedMatch?_node, match?_node, ← candidates_eq_map]
    exact (logging σ ℓ log).mono (stateT_matchNode _ rfl hsearch) fun _ _ => trivial

/-- **Every search that is watched is simulated.** -/
theorem logging_watchedSearch (as bs : List (Tree ℓ)) :
    ((logging σ ℓ log).exceptT Timeout).Rel (fun _ => True)
      ((D.onFst _).searchScript (.watched clock (some limit))
        (D.watchedCandidates (.watched clock (some limit)) as) bs)
      ((D.onFst _).searchScript (.deadline clock.logged (some limit))
        ((D.onFst _).candidates (.deadline clock.logged (some limit)) as) bs) :=
  D.logging_searchScript clock limit log as bs fun a _ b _ =>
    D.logging_watchedMatch? clock limit log a b

/-- A search that returns does so with a log and when it is watched, and the log has the readings of
the watch. -/
theorem exists_watched {x : ExceptT Timeout (Reporting Timeout (Attempt (σ × Watch ℓ))) γ}
    {y : ExceptT Timeout (Reporting Timeout (Attempt (σ × Array Instant))) γ}
    {z : ExceptT Timeout (Reporting Timeout (Attempt σ)) γ} {s s' : σ}
    {p : Except Timeout γ × Option Timeout} {w : Watch ℓ}
    (hwatch : ((logging σ ℓ log).exceptT Timeout).Rel (fun _ => True) x y)
    (hlog : (dropLog σ).Rel (fun _ => True) y z) (hz : z.run.run none s = .ok p s')
    (hw : w.events = []) :
    ∃ w', x.run.run none (s, w) = .ok p (s', w') ∧
      y.run.run none (s, log) = .ok p (s', log ++ w'.readings) := by
  have hforget := Attempt.forgetting_of_viewing (hwatch none) (hlog none)
  obtain ⟨w', hx⟩ := Attempt.exists_run_of_forgetting hforget hz w
  have hview := hwatch none s w
  rw [hx] at hview
  have hy : y.run.run none (s, log ++ w.readings) = .ok p (s', log ++ w'.readings) := hview.2
  have hnone : w.readings = #[] := by rw [Watch.readings, hw]; rfl
  rw [hnone, Array.append_empty] at hy
  exact ⟨w', hx, hy⟩

end Differ

end TreeDiff
