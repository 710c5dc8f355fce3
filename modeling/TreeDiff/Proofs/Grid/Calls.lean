import TreeDiff.Grid.Search
import TreeDiff.Proofs.Attempt

/-!
# Runs of the calls of the search

* `uninterrupted_eq_ok_iff`, `cheapestEdits_eq_ok_iff`: the calls without a limit of time.
* `Settings.run_limit`, `run_cheapestEditsWithin`: the call with a deadline.
* `Interrupt.onFst_deadline`, `Settings.run_limit_onFst`: the same questions beside a log.
* `exists_cheapestEditsWithin_onFst`: the call with a deadline, beside a log.
-/

namespace TreeDiff

variable {σ ρ α β γ δ : Type}

/-! ## Without a limit of time -/

theorem uninterrupted_eq_ok_iff {x : ExceptT Empty (Attempt σ) γ} {s s' : σ} {a : γ} :
    uninterrupted x s = .ok a s' ↔ x.run s = .ok (.ok a) s' := by
  simp only [uninterrupted, bind, EStateM.bind]
  cases x.run s with
  | ok r s₁ =>
    cases r with
    | ok b =>
      constructor
      · rintro ⟨⟩
        rfl
      · rintro ⟨⟩
        rfl
    | error e => exact e.elim
  | error e s₁ => simp

theorem uninterrupted_eq_error_iff {x : ExceptT Empty (Attempt σ) γ} {s s' : σ} {e : Fault} :
    uninterrupted x s = .error e s' ↔ x.run s = .error e s' := by
  simp only [uninterrupted, bind, EStateM.bind]
  cases x.run s with
  | ok r s₁ =>
    cases r with
    | ok b => simp [pure, EStateM.pure]
    | error e => exact e.elim
  | error e s₁ => simp

theorem cheapestEdits_eq_error_iff {P : Policy (Attempt σ) α β δ} {settings : Settings}
    {xs : List α} {ys : List β} {s s' : σ} {e : Fault} :
    cheapestEdits P settings xs ys s = .error e s' ↔
      cheapestScript P settings xs ys s = .error e s' := by
  simp only [cheapestEdits, bind, EStateM.bind]
  cases cheapestScript P settings xs ys s with
  | ok script s₁ => simp [pure, EStateM.pure]
  | error e s₁ => simp

theorem cheapestEdits_eq_ok_iff {P : Policy (Attempt σ) α β δ} {settings : Settings} {xs : List α}
    {ys : List β} {s s' : σ} {edits : List δ} :
    cheapestEdits P settings xs ys s = .ok edits s' ↔
      ∃ script, (search P settings.tieBreak .never xs ys).run s = .ok (.ok script) s' ∧
        script.edits = edits := by
  constructor
  · intro h
    obtain ⟨script, s₁, hsearch, hedits⟩ := Attempt.bind_eq_ok_iff.1 h
    cases hedits
    exact ⟨script, uninterrupted_eq_ok_iff.1 hsearch, rfl⟩
  · rintro ⟨script, hsearch, rfl⟩
    exact Attempt.bind_eq_ok_iff.2 ⟨script, s', uninterrupted_eq_ok_iff.2 hsearch, rfl⟩

/-- Without a limit of time, the clock is not read. -/
theorem cheapestEditsWithin_eq_ok_iff {P : Policy (Attempt σ) α β δ} {clock : Attempt σ Instant}
    {settings : Settings} {xs : List α} {ys : List β} {s s' : σ} {edits : List δ} :
    (cheapestEditsWithin clock P { settings with deadline := none } xs ys).run s =
        .ok (.ok edits) s' ↔
      ∃ script, (search P settings.tieBreak (.deadline clock none) xs ys).run s =
        .ok (.ok script) s' ∧ script.edits = edits := by
  constructor
  · intro h
    obtain ⟨limit, s₁, hlimit, h⟩ := Attempt.run_bind_eq_ok h
    cases hlimit
    obtain ⟨script, s₂, hsearch, hedits⟩ := Attempt.run_bind_eq_ok h
    cases hedits
    exact ⟨script, hsearch, rfl⟩
  · rintro ⟨script, hsearch, rfl⟩
    unfold cheapestEditsWithin
    have hlimit : ({ settings with deadline := none } : Settings).limit
        (liftM clock : ExceptT Timeout (Attempt σ) Instant) = pure none := rfl
    rw [hlimit, pure_bind, Attempt.run_bind, hsearch]
    rfl

theorem cheapestEditsWithin_eq_error_iff {P : Policy (Attempt σ) α β δ} {clock : Attempt σ Instant}
    {settings : Settings} {xs : List α} {ys : List β} {s s' : σ} {e : Fault} :
    (cheapestEditsWithin clock P { settings with deadline := none } xs ys).run s = .error e s' ↔
      (search P settings.tieBreak (.deadline clock none) xs ys).run s = .error e s' := by
  unfold cheapestEditsWithin
  have hlimit : ({ settings with deadline := none } : Settings).limit
      (liftM clock : ExceptT Timeout (Attempt σ) Instant) = pure none := rfl
  rw [hlimit, pure_bind, Attempt.run_bind]
  cases (search P settings.tieBreak (.deadline clock none) xs ys).run s with
  | ok r s₁ =>
    cases r with
    | ok script => simp [pure, ExceptT.pure, ExceptT.mk, ExceptT.run, EStateM.pure]
    | error t => simp
  | error e s₁ => simp

/-! ## With a deadline -/

/-- The limit of a search that may end early. -/
theorem Settings.limit_liftM {ε : Type} (settings : Settings) (clock : Attempt σ Instant) :
    settings.limit (liftM clock : ExceptT ε (Attempt σ) Instant) =
      liftM (settings.limit clock) := by
  unfold Settings.limit
  cases settings.deadline with
  | none => exact (liftM_pure _).symm
  | some d =>
    refine Eq.trans ?_ (liftM_bind clock _).symm
    refine bind_congr fun now => ?_
    cases now.after d <;> rfl

/-- The clock is read once to find the limit. -/
theorem Settings.run_limit {settings : Settings} {clock : Attempt σ Instant} {d : Duration}
    {start limit : Instant} {s s₁ : σ} (hdeadline : settings.deadline = some d)
    (hclock : clock s = .ok start s₁) (hlimit : start.after d = .ok limit) :
    (settings.limit (liftM clock : ExceptT Timeout (Attempt σ) Instant)).run s =
      .ok (.ok (some limit)) s₁ := by
  unfold Settings.limit
  rw [hdeadline]
  dsimp only
  rw [Attempt.run_liftM_bind, hclock]
  dsimp only
  rw [hlimit]
  rfl

theorem run_cheapestEditsWithin (P : Policy (Attempt σ) α β δ) {settings : Settings}
    {clock : Attempt σ Instant} {d : Duration} {start limit : Instant} {s s₁ : σ}
    (hdeadline : settings.deadline = some d) (hclock : clock s = .ok start s₁)
    (hlimit : start.after d = .ok limit) (xs : List α) (ys : List β) :
    (cheapestEditsWithin clock P settings xs ys).run s =
      match (search P settings.tieBreak (.deadline clock (some limit)) xs ys).run s₁ with
      | .ok result s' => .ok (result.map Script.edits) s'
      | .error e s' => .error e s' := by
  unfold cheapestEditsWithin
  rw [Attempt.run_bind, Settings.run_limit hdeadline hclock hlimit]
  dsimp only
  rw [Attempt.run_bind]
  cases (search P settings.tieBreak (.deadline clock (some limit)) xs ys).run s₁ with
  | ok result s' => cases result <;> rfl
  | error e s' => rfl

/-! ## Beside a log -/

theorem Interrupt.onFst_never :
    (Interrupt.never : Interrupt (Attempt σ) Empty).onFst =
      (.never : Interrupt (Attempt (σ × ρ)) Empty) := rfl

theorem Interrupt.onFst_deadline (clock : Attempt σ Instant) (limit : Option Instant) :
    (Interrupt.deadline clock limit).onFst =
      (.deadline clock.onFst limit : Interrupt (Attempt (σ × ρ)) Timeout) := by
  cases limit with
  | none => rfl
  | some limit =>
    funext solved total ⟨s, r⟩
    simp only [Interrupt.onFst, Interrupt.deadline, Attempt.onFst_apply, bind, EStateM.bind]
    cases clock s <;> rfl

/-- The limit is found beside a log as it is without one. -/
theorem Settings.run_limit_onFst {settings : Settings} {clock : Attempt σ Instant}
    {limit : Option Instant} {s s' : σ}
    (h : (settings.limit (liftM clock : ExceptT Timeout (Attempt σ) Instant)).run s =
      .ok (.ok limit) s') (r : ρ) :
    (settings.limit (liftM (Attempt.onFst clock : Attempt (σ × ρ) Instant) :
      ExceptT Timeout (Attempt (σ × ρ)) Instant)).run (s, r) = .ok (.ok limit) (s', r) := by
  unfold Settings.limit at h ⊢
  cases hdeadline : settings.deadline with
  | none =>
    rw [hdeadline] at h
    cases h
    rfl
  | some d =>
    rw [hdeadline] at h
    dsimp only at h ⊢
    rw [Attempt.run_liftM_bind] at h ⊢
    rw [Attempt.onFst_apply]
    cases hclock : clock s with
    | error e s₁ =>
      rw [hclock] at h
      cases h
    | ok now s₁ =>
      rw [hclock] at h
      dsimp only at h ⊢
      cases hafter : now.after d with
      | error e =>
        rw [hafter] at h
        cases h
      | ok limit' =>
        rw [hafter] at h
        cases h
        rfl

/-- A search within the time that the settings allow runs beside a log, if the search does. The
clock is read beside the log as it is without one. -/
theorem exists_cheapestEditsWithin_onFst {P : Policy (Attempt σ) α β δ} {xs : List α} {ys : List β}
    {α' β' δ' : Type} {P' : Policy (Attempt (σ × ρ)) α' β' δ'} {xs' : List α'} {ys' : List β'}
    {clock : Attempt σ Instant} {settings : Settings} {r₀ : ρ} {s s' : σ} {edits : List δ}
    {p : ρ → Script δ → Script δ' → Prop}
    (hsearch : ∀ limit s₁ script,
      (search P settings.tieBreak (.deadline clock limit) xs ys).run s₁ = .ok (.ok script) s' →
      ∃ script' r, (search P' settings.tieBreak (.deadline clock.onFst limit) xs' ys').run
        (s₁, r₀) = .ok (.ok script') (s', r) ∧ p r script script')
    (h : (cheapestEditsWithin clock P settings xs ys).run s = .ok (.ok edits) s') :
    ∃ script script' r, script.edits = edits ∧
      (cheapestEditsWithin clock.onFst P' settings xs' ys').run (s, r₀) =
        .ok (.ok script'.edits) (s', r) ∧ p r script script' := by
  obtain ⟨limit, s₁, hlimit, h⟩ := Attempt.run_bind_eq_ok h
  obtain ⟨script, s₂, hscript, hedits⟩ := Attempt.run_bind_eq_ok h
  cases hedits
  obtain ⟨script', r, hrun, hp⟩ := hsearch limit s₁ script hscript
  refine ⟨script, script', r, rfl, ?_, hp⟩
  unfold cheapestEditsWithin
  rw [Attempt.run_bind, Settings.run_limit_onFst hlimit]
  dsimp only
  rw [Attempt.run_bind, hrun]
  rfl

end TreeDiff
