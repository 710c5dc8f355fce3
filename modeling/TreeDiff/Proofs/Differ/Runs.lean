import TreeDiff.Proofs.Grid.Calls
import TreeDiff.Proofs.Differ.Nested

/-!
# Runs of searches inside searches

What the computations of the differ do from a given report and a given state, when nothing but
faults can end the computation of a price.

* `Reporting.run_bind`: steps one after the other, of which one may end early and all may leave
  reports, and `Reporting.run_liftM` and the like for steps that do not touch the report.
* `Differ.run_check_asking`: the check of a position asks its question once. With a deadline it
  reads the clock, `Differ.run_check`.
* `Differ.run_matchNode`: the match of a node.
* `Differ.ended`: the result of a call from the end of its search and the report.
  `Differ.run_found` and `Differ.run_searched` are the two forms that a call with a deadline has.
  `Differ.run_diffTreesWithin` and `Differ.run_diffSequencesWithin` are the calls with a deadline,
  `Differ.run_diffTrees` and `Differ.run_diffSequences` those without one.
-/

namespace TreeDiff

variable {σ γ γ' ℓ τ ε : Type}

namespace Reporting

theorem run_bind (x : ExceptT τ (Reporting τ (Attempt σ)) γ)
    (f : γ → ExceptT τ (Reporting τ (Attempt σ)) γ') (r : Option τ) (s : σ) :
    (x >>= f).run.run r s = match x.run.run r s with
      | .ok (.ok a, r') s' => (f a).run.run r' s'
      | .ok (.error t, r') s' => .ok (.error t, r') s'
      | .error e s' => .error e s' := by
  rw [ExceptT.run_bind, StateT.run_bind]
  simp only [bind, EStateM.bind]
  cases x.run.run r s with
  | ok p s' =>
    obtain ⟨a | a, r'⟩ := p <;> rfl
  | error e s' => rfl

theorem run_liftM_self (x : Reporting τ (Attempt σ) γ) (r : Option τ) (s : σ) :
    (liftM x : ExceptT τ (Reporting τ (Attempt σ)) γ).run.run r s = match x.run r s with
      | .ok (a, r') s' => .ok (.ok a, r') s'
      | .error e s' => .error e s' := by
  show (Except.ok <$> x).run r s = _
  rw [StateT.run_map]
  simp only [Functor.map, EStateM.map]
  cases x.run r s <;> rfl

theorem run_liftM (x : Attempt σ γ) (r : Option τ) (s : σ) :
    (liftM x : ExceptT τ (Reporting τ (Attempt σ)) γ).run.run r s = match x s with
      | .ok a s' => .ok (.ok a, r) s'
      | .error e s' => .error e s' := by
  have hlift : (liftM x : ExceptT τ (Reporting τ (Attempt σ)) γ) =
      liftM (liftM x : Reporting τ (Attempt σ) γ) := rfl
  rw [hlift, run_liftM_self, StateT.run_monadLift, monadLift_self]
  simp only [bind, EStateM.bind]
  cases x s <;> rfl

theorem run_liftM_except (x : Except Fault γ) (r : Option τ) (s : σ) :
    (liftM x : ExceptT τ (Reporting τ (Attempt σ)) γ).run.run r s = match x with
      | .ok a => .ok (.ok a, r) s
      | .error e => .error e s := by
  cases x <;> rfl

/-- A cost that is added up in the same way on both sides, whatever is reported. -/
theorem rel_except {σ' : Type} (S : Simulation (Attempt σ) (Attempt σ')) {Q : γ → Prop}
    (hthrow : ∀ {Q : Except τ γ × Option τ → Prop} (e : Fault), S.Rel Q (throw e) (throw e))
    {x : Except Fault γ} (hQ : ∀ a, x = .ok a → Q a) :
    (((S.stateT (Option τ)).exceptT τ).comap (Except Fault) (Except Fault)).Rel Q x x := by
  intro r
  cases x with
  | ok a => exact S.pure fun _ ha => by cases ha; exact hQ a rfl
  | error e => exact hthrow e

end Reporting

namespace Differ

/-! ## Steps -/

/-- The check of a position asks the question once. -/
theorem run_check_asking (interrupt : Interrupt (Attempt σ) τ) (solved total : Nat) (r : Option τ)
    (s : σ) :
    ((asking interrupt).check solved total).run.run r s = match interrupt solved total s with
      | .ok (some t) s' => .ok (.error t, r) s'
      | .ok none s' => .ok (.ok (), r) s'
      | .error e s' => .error e s' := by
  have hask : ∀ o : Attempt σ (Option τ), (liftM (liftM o : Reporting τ (Attempt σ) (Option τ)) :
      ExceptT τ (Reporting τ (Attempt σ)) (Option τ)) = liftM o := fun _ => rfl
  unfold Interrupt.check asking
  rw [Reporting.run_bind, hask, Reporting.run_liftM]
  cases interrupt solved total s with
  | error e s' => rfl
  | ok o s' => cases o <;> rfl

/-- The check of a deadline reads the clock once. -/
theorem run_check (clock : Attempt σ Instant) (limit : Instant) (solved total : Nat)
    (r : Option Timeout) (s : σ) :
    ((asking (.deadline clock (some limit))).check solved total).run.run r s =
      match clock s with
      | .ok now s' => .ok (if now.reaches limit then .error ⟨solved, total⟩ else .ok (), r) s'
      | .error e s' => .error e s' := by
  rw [run_check_asking]
  simp only [Interrupt.deadline, bind, EStateM.bind]
  cases clock s with
  | error e s' => rfl
  | ok now s' =>
    simp only [pure, EStateM.pure]
    cases now.reaches limit <;> rfl

theorem run_matchNode (D : Differ (Attempt σ) ℓ) (interrupt : Interrupt (Attempt σ) τ)
    (l : ℓ) (cs : List (Candidate (Reporting τ (Attempt σ)) ℓ)) (b : Tree ℓ) (r : Option τ)
    (s : σ) :
    (D.matchNode interrupt l cs b).run r s = match D.sameLabel l b.label, r with
      | true, none => match (D.searchScript interrupt cs b.children).run.run none s with
        | .ok (x, r') s' => .ok (settled l x r') s'
        | .error e s' => .error e s'
      | _, r => .ok (none, r) s := by
  cases h : D.sameLabel l b.label with
  | false => rw [D.run_matchNode_of_ne interrupt cs h]; rfl
  | true =>
    cases r with
    | some t => rw [D.run_matchNode_some]; rfl
    | none =>
      rw [D.run_matchNode_none interrupt cs h]
      simp only [bind, EStateM.bind]
      cases (D.searchScript interrupt cs b.children).run.run none s <;> rfl

/-! ## Calls -/

/-- The result of a call, from the end of its search and the report. -/
def ended (f : γ → γ') : Except Timeout γ × Option Timeout → Except Timeout γ'
  | (.error t, _) => .error t
  | (.ok _, some t) => .error t
  | (.ok a, none) => .ok (f a)

theorem ended_eq_error_iff {f : γ → γ'} {p : Except Timeout γ × Option Timeout} :
    (∃ t, ended f p = .error t) ↔ (∃ t, p.1 = .error t) ∨ p.2.isSome = true := by
  obtain ⟨t | a, _ | t'⟩ := p <;> simp [ended]

theorem ended_eq_ok_iff {f : γ → γ'} {p : Except Timeout γ × Option Timeout} {b : γ'} :
    ended f p = .ok b ↔ ∃ a, p = (.ok a, none) ∧ f a = b := by
  obtain ⟨t | a, _ | t'⟩ := p <;> simp [ended]

section

variable {settings : Settings} {D : Differ (Attempt σ) ℓ} {clock : Attempt σ Instant} {d : Duration}
  {start limit : Instant} {s s₁ : σ} {a b : Tree ℓ} {as bs : List (Tree ℓ)}

/-- A call within a limit of time that ends with what `x` finds, unless there is a report. -/
theorem run_found (hdeadline : settings.deadline = some d) (hclock : clock s = .ok start s₁)
    (hlimit : start.after d = .ok limit) (x : Option Instant → Reporting Timeout (Attempt σ) γ)
    (f : γ → γ') :
    (do
      let limit ← settings.limit (liftM clock : ExceptT Timeout (Attempt σ) Instant)
      let (a, report) ← (x limit).run none
      match report with
      | some t => throw t
      | none => return f a : ExceptT Timeout (Attempt σ) γ').run s =
      (ended f <$> (liftM (x (some limit)) :
        ExceptT Timeout (Reporting Timeout (Attempt σ)) γ).run.run none) s₁ := by
  simp only [Functor.map, EStateM.map]
  rw [Attempt.run_bind, Settings.run_limit hdeadline hclock hlimit, Reporting.run_liftM_self]
  dsimp only
  rw [Attempt.run_liftM_bind]
  cases (x (some limit)).run none s₁ with
  | ok p s' =>
    obtain ⟨o, _ | t⟩ := p <;> rfl
  | error e s' => rfl

/-- A call within a limit of time that ends as the search `x` does, unless there is a report. -/
theorem run_searched (hdeadline : settings.deadline = some d) (hclock : clock s = .ok start s₁)
    (hlimit : start.after d = .ok limit)
    (x : Option Instant → ExceptT Timeout (Reporting Timeout (Attempt σ)) γ) {f : γ → γ'}
    {k : Except Timeout γ × Option Timeout → ExceptT Timeout (Attempt σ) γ'}
    (hk : ∀ p s', (k p).run s' = .ok (ended f p) s') :
    (do
      let limit ← settings.limit (liftM clock : ExceptT Timeout (Attempt σ) Instant)
      let p ← (x limit).run.run none
      k p : ExceptT Timeout (Attempt σ) γ').run s =
      (ended f <$> (x (some limit)).run.run none) s₁ := by
  simp only [Functor.map, EStateM.map]
  rw [Attempt.run_bind, Settings.run_limit hdeadline hclock hlimit]
  dsimp only
  rw [Attempt.run_liftM_bind]
  cases (x (some limit)).run.run none s₁ with
  | ok p s' => exact hk p s'
  | error e s' => rfl

theorem run_diffTreesWithin (hdeadline : D.settings.deadline = some d)
    (hclock : clock s = .ok start s₁) (hlimit : start.after d = .ok limit) :
    (D.diffTreesWithin clock a b).run s =
      (ended (fun o => o.getD (.edit (.replace a b))) <$>
        (liftM (D.match? (.deadline clock (some limit)) a b) :
          ExceptT Timeout (Reporting Timeout (Attempt σ)) _).run.run none) s₁ :=
  run_found hdeadline hclock hlimit (fun limit => D.match? (.deadline clock limit) a b)
    fun o => o.getD (.edit (.replace a b))

theorem run_diffSequencesWithin (hdeadline : D.settings.deadline = some d)
    (hclock : clock s = .ok start s₁) (hlimit : start.after d = .ok limit) :
    (D.diffSequencesWithin clock as bs).run s =
      (ended Script.edits <$> (D.searchScript (.deadline clock (some limit))
        (D.candidates (.deadline clock (some limit)) as) bs).run.run none) s₁ :=
  run_searched hdeadline hclock hlimit (fun limit => D.searchScript (.deadline clock limit)
    (D.candidates (.deadline clock limit) as) bs) (by rintro ⟨_ | _, _ | _⟩ s' <;> rfl)

theorem run_diffTrees {o : Option (Diff ℓ)}
    (h : (liftM (D.match? .never a b) : ExceptT Empty (Reporting Empty (Attempt σ)) _).run.run none
      s = .ok (.ok o, none) s₁) :
    D.diffTrees a b s = .ok (o.getD (.edit (.replace a b))) s₁ := by
  rw [Reporting.run_liftM_self] at h
  unfold diffTrees compare
  simp only [StateT.run'_eq, bind, EStateM.bind, Functor.map, EStateM.map]
  cases hrun : (D.match? .never a b).run none s with
  | ok p s' =>
    obtain ⟨o', r'⟩ := p
    rw [hrun] at h
    cases h
    rfl
  | error e s' =>
    rw [hrun] at h
    cases h

theorem run_diffSequences {script : Script (Diff ℓ)}
    (h : (D.searchScript .never (D.candidates .never as) bs).run.run none s =
      .ok (.ok script, none) s₁) :
    D.diffSequences as bs s = .ok script.edits s₁ := by
  unfold diffSequences uninterrupted
  rw [StateT.run'_eq, StateT.run_bind]
  simp only [bind, EStateM.bind, Functor.map, EStateM.map]
  rw [h]
  rfl

end

end Differ

end TreeDiff
