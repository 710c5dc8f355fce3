import TreeDiff.LabelRule
import TreeDiff.Pricing
import TreeDiff.Proofs.Differ.Runs

/-!
# Searches inside searches that run out of time

A call with a deadline reads the clock once when it starts and once at every check of a position.
If a check comes too late, its search ends. Inside another search this leaves a report, and the
search around it goes on without the match; but a report is never taken back, and takes the place
of the result in the end.

* `Outcome`: what a run with a deadline keeps. There is a report, or an early end, if and only if a
  reading was late, and otherwise the run without a deadline gives the same answer.
* `Differ.related_never`: all steps of the differ keep it, and so do all its searches.
* `Differ.hasty`: a differ that soon runs out of time.
-/

namespace TreeDiff

variable {σ υ γ γ' ℓ : Type}

/-! ## The run without a deadline -/

/-- One of the readings has come to the limit. -/
def Instant.Late (limit : Instant) (readings : Array Instant) : Prop :=
  ∃ now ∈ readings, now.reaches limit = true

theorem Instant.late_append {limit : Instant} {readings readings' : Array Instant} :
    limit.Late (readings ++ readings') ↔ limit.Late readings ∨ limit.Late readings' := by
  simp only [Late, Array.mem_append, or_and_right, exists_or]

theorem Instant.not_late_empty (limit : Instant) : ¬ limit.Late #[] := by
  rintro ⟨now, hnow, -⟩
  exact Array.not_mem_empty now hnow

/-- What a run with a deadline, from the report `r` and the state `s` with its log, leaves behind.
The computation `x` is the one without a deadline. -/
structure Outcome (view : σ → υ) (limit : Instant) (Q : γ → Prop)
    (x : ExceptT Empty (Reporting Empty (Attempt σ)) γ) (r : Option Timeout) (s : σ × Array Instant)
    (p : Except Timeout γ × Option Timeout) (s' : σ × Array Instant) : Prop where
  answer : ∀ a, p.1 = .ok a → Q a
  /-- A report is never taken back. -/
  report : r.isSome = true → p.2.isSome = true
  /-- The run has ended early or left a report if and only if one of its readings was late. -/
  checks : ∃ readings, s'.2 = s.2 ++ readings ∧
    (r = none → ((∃ t, p.1 = .error t) ∨ p.2.isSome = true ↔ limit.Late readings))
  /-- The run without a deadline gives the same answer, unless there is a report. -/
  free : r = none → ∀ a, p = (.ok a, none) → ∀ s₂, view s.1 = view s₂ →
    ∃ s₂', x.run.run none s₂ = .ok (.ok a, none) s₂' ∧ view s'.1 = view s₂'

namespace Outcome

variable {view : σ → υ} {limit : Instant} {Q : γ → Prop} {R : γ' → Prop}
  {x : ExceptT Empty (Reporting Empty (Attempt σ)) γ}
  {f : γ → ExceptT Empty (Reporting Empty (Attempt σ)) γ'} {r r' : Option Timeout}
  {s s' s'' : σ × Array Instant} {p : Except Timeout γ' × Option Timeout} {a : γ} {t : Timeout}

theorem bind (h : Outcome view limit Q x r s (.ok a, r') s')
    (h' : Outcome view limit R (f a) r' s' p s'') : Outcome view limit R (x >>= f) r s p s'' where
  answer := h'.answer
  report hr := h'.report (h.report hr)
  checks := by
    obtain ⟨readings, hlog, hlate⟩ := h.checks
    obtain ⟨readings', hlog', hlate'⟩ := h'.checks
    refine ⟨readings ++ readings', by rw [hlog', hlog, Array.append_assoc], fun hr => ?_⟩
    have hlate := hlate hr
    rw [Instant.late_append, ← hlate]
    cases r' with
    | none =>
      rw [hlate' rfl]
      simp
    | some t =>
      have hreport := h'.report rfl
      simp [hreport]
  free := by
    rintro hr b rfl s₂ hs₂
    cases r' with
    | some t => cases h'.report rfl
    | none =>
      obtain ⟨s₂', hx, hs₂'⟩ := h.free hr a rfl s₂ hs₂
      obtain ⟨s₂'', hf, hs₂''⟩ := h'.free rfl b rfl s₂' hs₂'
      refine ⟨s₂'', ?_, hs₂''⟩
      rw [Reporting.run_bind, hx]
      exact hf

theorem bind_of_error (h : Outcome view limit Q x r s (.error t, r') s') :
    Outcome view limit R (x >>= f) r s (.error t, r') s' where
  answer := nofun
  report := h.report
  checks := by
    obtain ⟨readings, hlog, hlate⟩ := h.checks
    refine ⟨readings, hlog, fun hr => ?_⟩
    rw [← hlate hr]
    simp
  free := nofun

/-- The check of a position. -/
theorem check {now : Instant} {s₁ : σ} (hview : view s₁ = view s.1) (solved total : Nat) :
    Outcome view limit (fun _ => True) (pure ()) r s
      (if now.reaches limit then .error ⟨solved, total⟩ else .ok (), r)
      (s₁, s.2.push now) where
  answer _ _ := trivial
  report h := h
  checks := by
    refine ⟨#[now], Array.push_eq_append, ?_⟩
    rintro rfl
    cases hlate : now.reaches limit <;> simp [Instant.Late, hlate]
  free := by
    intro _ a ha s₂ hs₂
    obtain rfl := (Prod.mk.inj ha).2
    exact ⟨s₂, rfl, hview.trans hs₂⟩

/-- Nothing is said of a run that starts with a report but that it keeps a report and the log. -/
theorem of_report {x : ExceptT Empty (Reporting Empty (Attempt σ)) γ} :
    Outcome view limit (fun _ => True) x (some t) s (.ok a, some t) s where
  answer _ _ := trivial
  report h := h
  checks := ⟨#[], Array.append_empty.symm, nofun⟩
  free := nofun

/-- The end of a search settles the answer for a node. -/
theorem settled {l : ℓ} {x : ExceptT Empty (Reporting Empty (Attempt σ)) (Script (Diff ℓ))}
    {y : ExceptT Empty (Reporting Empty (Attempt σ)) (Option (Diff ℓ))} {Q : Script (Diff ℓ) → Prop}
    {p : Except Timeout (Script (Diff ℓ)) × Option Timeout}
    (h : Outcome view limit Q x none s p s')
    (hfree : ∀ script s₂ s₂', x.run.run none s₂ = .ok (.ok script, none) s₂' →
      y.run.run none s₂ = .ok (.ok (some (.merge l script.edits)), none) s₂') :
    Outcome view limit (fun _ => True) y none s
      (.ok (Differ.settled l p.1 p.2).1, (Differ.settled l p.1 p.2).2) s' where
  answer _ _ := trivial
  report := nofun
  checks := by
    obtain ⟨readings, hlog, hlate⟩ := h.checks
    refine ⟨readings, hlog, fun _ => ?_⟩
    rw [← hlate rfl]
    obtain ⟨t | script, r'⟩ := p <;> simp [Differ.settled]
  free := by
    intro _ a ha s₂ hs₂
    obtain ⟨t | script, r'⟩ := p
    · cases (Prod.mk.inj ha).2
    · obtain rfl : r' = none := (Prod.mk.inj ha).2
      obtain ⟨s₂', hx, hview⟩ := h.free rfl script rfl s₂ hs₂
      cases (Prod.mk.inj ha).1
      exact ⟨s₂', hfree script s₂ s₂' hx, hview⟩

/-- A step that neither reads the clock nor touches the report. -/
theorem of_step (ha : Q a) {s₁ : σ} (hfree : ∀ s₂, view s.1 = view s₂ →
      ∃ s₂', x.run.run none s₂ = .ok (.ok a, none) s₂' ∧ view s₁ = view s₂') :
    Outcome view limit Q x r s (.ok a, r) (s₁, s.2) where
  answer := by rintro _ ⟨⟩; exact ha
  report h := h
  checks := by
    refine ⟨#[], Array.append_empty.symm, ?_⟩
    rintro rfl
    simp [Instant.not_late_empty]
  free := by
    rintro rfl b ⟨⟩ s₂ hs₂
    exact hfree s₂ hs₂

end Outcome

/-- The simulation of a run with a deadline by the one without. -/
def dropDeadline (view : σ → υ) (limit : Instant) :
    Simulation (ExceptT Timeout (Reporting Timeout (Attempt (σ × Array Instant))))
      (ExceptT Empty (Reporting Empty (Attempt σ))) where
  Rel Q x y := ∀ r s, match x.run.run r s with
    | .ok p s' => Outcome view limit Q y r s p s'
    | .error e _ => e = .costOverflow
  pure h r s := .of_step h fun s₂ hs₂ => ⟨s₂, rfl, hs₂⟩
  bind := by
    intro _ _ Q R x y f g hx hf r s
    rw [Reporting.run_bind]
    have h := hx r s
    cases hrun : x.run.run r s with
    | error e s' =>
      rw [hrun] at h
      exact h
    | ok p s' =>
      rw [hrun] at h
      obtain ⟨t | a, r'⟩ := p
      · exact h.bind_of_error
      · have h' := hf a (h.answer a rfl) r' s'
        show match (f a).run.run r' s' with | .ok p s' => _ | .error e _ => _
        cases hrun' : (f a).run.run r' s' with
        | error e s'' =>
          rw [hrun'] at h'
          exact h'
        | ok p s'' =>
          rw [hrun'] at h'
          exact h.bind h'

namespace Differ

/-- What `view` shows of the state is all that the prices depend on, and the clock leaves it as it
is. The only fault of a price is an overflow of the costs. -/
structure ClockFree (D : Differ (Attempt σ) ℓ) (clock : Attempt σ Instant) (view : σ → υ) :
    Prop where
  clock_ok : ∀ s, ∃ now s', clock s = .ok now s' ∧ view s' = view s
  cost_ok : ∀ {d s₁ s₂ c s₁'}, view s₁ = view s₂ → D.cost d s₁ = .ok c s₁' →
    ∃ s₂', D.cost d s₂ = .ok c s₂' ∧ view s₁' = view s₂'
  cost_error : ∀ {d s e s'}, D.cost d s = .error e s' → e = .costOverflow

variable {D : Differ (Attempt σ) ℓ} {clock : Attempt σ Instant} {view : σ → υ}

/-- A differ with a deadline is simulated by the one without. -/
theorem related_never (h : D.ClockFree clock view) (limit : Instant) :
    Related (dropDeadline view limit) (D.onFst _) D (.deadline clock.logged (some limit))
      .never where
  tieBreak_eq := rfl
  check := by
    intro solved total r s
    obtain ⟨now, s', hclock, hview⟩ := h.clock_ok s.1
    rw [run_check, passes_asking_never.check_eq, Attempt.logged_apply, hclock]
    exact .check hview solved total
  cost := by
    intro d r s
    have hcost : (D.onFst (Array Instant)).cost d s = _ := Attempt.onFst_apply _ s.1 s.2
    rw [Reporting.run_liftM, hcost]
    cases hrun : D.cost d s.1 with
    | error e s' => exact h.cost_error hrun
    | ok c s' =>
      refine Outcome.of_step trivial fun s₂ hs₂ => ?_
      obtain ⟨s₂', hs₂', hview⟩ := h.cost_ok hs₂ hrun
      refine ⟨s₂', ?_, hview⟩
      rw [Reporting.run_liftM, hs₂']
  prepend := by
    intro d c t r s
    have hceiling : (D.onFst (Array Instant)).ceiling = D.ceiling := rfl
    rw [Reporting.run_liftM_except, hceiling]
    cases hrun : Script.prepend D.ceiling d c t with
    | error e => exact (Script.prepend_eq_error_iff.1 hrun).2
    | ok t' =>
      refine Outcome.of_step trivial fun s₂ hs₂ => ⟨s₂, ?_, hs₂⟩
      rw [Reporting.run_liftM_except]
  node := by
    intro l cs cs' b hsearch r s
    have hsame : (D.onFst (Array Instant)).sameLabel l b.label = D.sameLabel l b.label := rfl
    rw [Reporting.run_liftM_self, run_matchNode, hsame]
    cases hl : D.sameLabel l b.label with
    | false =>
      refine Outcome.of_step trivial fun s₂ hs₂ => ⟨s₂, ?_, hs₂⟩
      rw [Reporting.run_liftM_self, run_matchNode, hl]
    | true =>
      cases r with
      | some t => exact .of_report
      | none =>
        have hs := hsearch none s
        cases hrun : ((D.onFst _).searchScript _ cs b.children).run.run none s with
        | error e s' =>
          rw [hrun] at hs
          exact hs
        | ok p s' =>
          rw [hrun] at hs
          refine hs.settled fun script s₂ s₂' hfree => ?_
          rw [Reporting.run_liftM_self, run_matchNode, hl]
          simp only [hfree, Differ.settled]

/-- The differ of trees with words as labels, at flat prices, within a microsecond. It takes two to
find the cost of the deletion of a tree with the label `slow`. -/
def hasty : Differ (Attempt Instant) String where
  sameLabel := LabelRule.exact.same
  cost := Pricing.cost { flat := true, slowDelete := [("slow", ⟨2000⟩)] }
  settings := { deadline := some ⟨1000⟩ }

theorem clockFree_hasty : hasty.ClockFree get fun _ => () where
  clock_ok s := ⟨s, s, rfl, rfl⟩
  cost_ok := by
    intro d s₁ s₂ c s₁' _ hcost
    obtain ⟨hc, -⟩ := Pricing.cost_eq_ok_iff.1 hcost
    exact ⟨_, Pricing.cost_eq_ok_iff.2 ⟨hc, rfl⟩, rfl⟩
  cost_error hcost := Pricing.eq_costOverflow_of_cost hcost

end Differ

end TreeDiff
