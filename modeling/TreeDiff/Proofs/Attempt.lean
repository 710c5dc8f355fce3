import TreeDiff.Proofs.Simulation
import TreeDiff.Cost

/-!
# Runs of computations with a state

* `Attempt.run_bind`, `Attempt.run_liftM_bind`: steps one after the other, of which one may end
  early.
* `Attempt.agreeing`: two computations return the same from every state.
* `Attempt.returning`: what holds of every answer that is returned, and `Attempt.faulting` moreover
  of every fault. `Attempt.leading` says where runs that return lead, and `Attempt.ending` also
  where runs that end early do.
* `Attempt.forgetting`: what stands beside the state is forgotten. `Attempt.viewing`: it is seen in
  part only. `Attempt.admitting`: it is forgotten, and computations refuse entries of the log which
  are not among given ones.
-/

namespace TreeDiff.Attempt

variable {σ ρ ρ' γ γ' ε : Type}

/-! ## Sequences of steps -/

theorem run_bind (x : ExceptT ε (Attempt σ) γ) (f : γ → ExceptT ε (Attempt σ) γ')
    (s : σ) : (x >>= f).run s = match x.run s with
      | .ok (.ok a) s' => (f a).run s'
      | .ok (.error t) s' => .ok (.error t) s'
      | .error e s' => .error e s' := by
  rw [ExceptT.run_bind]
  simp only [bind, EStateM.bind]
  cases x.run s with
  | ok p s' =>
    cases p <;> rfl
  | error e s' => rfl

theorem run_liftM (x : Attempt σ γ) (s : σ) :
    (liftM x : ExceptT ε (Attempt σ) γ).run s = match x s with
      | .ok a s' => .ok (.ok a) s'
      | .error e s' => .error e s' := by
  show (Except.ok <$> x : Attempt σ (Except ε γ)) s = _
  simp only [Functor.map, EStateM.map]
  cases x s <;> rfl

theorem run_liftM_eq_ok_iff {x : Attempt σ γ} {s s' : σ} {a : γ} :
    (liftM x : ExceptT ε (Attempt σ) γ).run s = .ok (.ok a) s' ↔ x s = .ok a s' := by
  rw [run_liftM]
  cases x s <;> simp

theorem run_liftM_bind (x : Attempt σ γ) (f : γ → ExceptT ε (Attempt σ) γ') (s : σ) :
    ((liftM x : ExceptT ε (Attempt σ) γ) >>= f).run s = match x s with
      | .ok a s' => (f a).run s'
      | .error e s' => .error e s' := by
  rw [run_bind, run_liftM]
  cases x s <;> rfl

theorem liftM_except_eq_ok_iff {x : Except Fault γ} {s s' : σ} {a : γ} :
    (liftM x : Attempt σ γ) s = .ok a s' ↔ x = .ok a ∧ s = s' := by
  cases x with
  | ok b =>
    constructor
    · rintro ⟨⟩
      exact ⟨rfl, rfl⟩
    · rintro ⟨⟨⟩, rfl⟩
      rfl
  | error e => constructor <;> nofun

/-- A sequence of steps that returns consists of steps that return. -/
theorem bind_eq_ok_iff {x : Attempt σ γ} {f : γ → Attempt σ γ'} {s s' : σ} {b : γ'} :
    (x >>= f) s = .ok b s' ↔ ∃ a s₁, x s = .ok a s₁ ∧ f a s₁ = .ok b s' := by
  simp only [bind, EStateM.bind]
  cases x s with
  | ok a s₁ =>
    constructor
    · intro h
      exact ⟨a, s₁, rfl, h⟩
    · rintro ⟨_, _, ⟨⟩, h⟩
      exact h
  | error e s₁ => constructor <;> nofun

theorem run_bind_eq_ok {x : ExceptT ε (Attempt σ) γ} {f : γ → ExceptT ε (Attempt σ) γ'} {s s' : σ}
    {b : γ'} (h : (x >>= f).run s = .ok (.ok b) s') :
    ∃ a s₁, x.run s = .ok (.ok a) s₁ ∧ (f a).run s₁ = .ok (.ok b) s' := by
  rw [run_bind] at h
  cases hx : x.run s with
  | ok p s₁ =>
    rw [hx] at h
    cases p with
    | ok a => exact ⟨a, s₁, rfl, h⟩
    | error t => cases h
  | error e s₁ =>
    rw [hx] at h
    cases h

/-- A cost that is added up in the same way on both sides. -/
theorem rel_except {σ' : Type} (S : Simulation (Attempt σ) (Attempt σ')) {Q : γ → Prop}
    (hthrow : ∀ e : Fault, S.Rel Q (throw e) (throw e)) {x : Except Fault γ}
    (hQ : ∀ a, x = .ok a → Q a) :
    ((S.exceptT ε).comap (Except Fault) (Except Fault)).Rel Q x x := by
  refine S.exceptT_liftM ?_
  cases x with
  | ok a => exact S.pure (hQ a rfl)
  | error e => exact hthrow e

/-! ## Computations that return the same -/

/-- The simulation of computations that return the same answer in the same state. -/
def agreeing (σ : Type) : Simulation (Attempt σ) (Attempt σ) where
  Rel Q x y := ∀ s, ∃ a s', Q a ∧ x s = .ok a s' ∧ y s = .ok a s'
  pure h s := ⟨_, s, h, rfl, rfl⟩
  bind := by
    intro _ _ Q R x y f g hx hf s
    obtain ⟨a, s₁, ha, hxs, hys⟩ := hx s
    obtain ⟨b, s', hb, hfs, hgs⟩ := hf a ha s₁
    exact ⟨b, s', hb, bind_eq_ok_iff.2 ⟨a, s₁, hxs, hfs⟩, bind_eq_ok_iff.2 ⟨a, s₁, hys, hgs⟩⟩

theorem agreeing_self {x : Attempt σ γ} (h : ∀ s, ∃ a s', x s = .ok a s') :
    (agreeing σ).Rel (fun _ => True) x x := by
  intro s
  obtain ⟨a, s', hx⟩ := h s
  exact ⟨a, s', trivial, hx, hx⟩

/-! ## Answers that are returned -/

/-- The simulation that says something of every answer that is returned. -/
def returning (σ : Type) : Simulation (Attempt σ) (Attempt σ) where
  Rel Q x _ := ∀ s a s', x s = .ok a s' → Q a
  pure h := by
    rintro s a s' ⟨⟩
    exact h
  bind := by
    intro _ _ Q R x y f g hx hf s b s' hrun
    obtain ⟨a, s₁, ha, hb⟩ := bind_eq_ok_iff.1 hrun
    exact hf a (hx s a s₁ ha) s₁ b s' hb

theorem returning_throw (Q : γ → Prop) (e : Fault) :
    (returning σ).Rel Q (throw e) (throw e) := by
  rintro s a s' ⟨⟩

theorem returning_liftM {Q : γ → Prop} {x : Attempt σ γ} (h : ∀ s a s', x s = .ok a s' → Q a) :
    (((returning σ).exceptT ε).comap (Attempt σ) (Attempt σ)).Rel Q x x :=
  (returning σ).exceptT_liftM (x := x) (y := x) h

/-- The simulation that says something of every answer that is returned, and of the state of every
fault. -/
def faulting (F : Fault → σ → Prop) : Simulation (Attempt σ) (Attempt σ) where
  Rel Q x _ := ∀ s, match x s with
    | .ok a _ => Q a
    | .error e s' => F e s'
  pure h _ := h
  bind := by
    intro _ _ Q R x y f g hx hf s
    have hs := hx s
    simp only [bind, EStateM.bind]
    cases hrun : x s with
    | ok a s₁ =>
      rw [hrun] at hs
      exact hf a hs s₁
    | error e s₁ =>
      rwa [hrun] at hs

theorem faulting_self {F : Fault → σ → Prop} {x : Attempt σ γ}
    (h : ∀ s e s', x s = .error e s' → F e s') : (faulting F).Rel (fun _ => True) x x := by
  intro s
  cases hrun : x s with
  | ok a s' => trivial
  | error e s' => exact h s e s' hrun

/-- Runs that return lead from states to states with certain properties. -/
def leading (ε σ : Type) : Tracking σ (ExceptT ε (Attempt σ)) (ExceptT ε (Attempt σ)) where
  Rel A Q B x _ := ∀ s a s', A s → x.run s = .ok (.ok a) s' → Q a ∧ B s'
  pure h hAB := by
    rintro s a s' hs ⟨⟩
    exact ⟨h, hAB s hs⟩
  bind := by
    intro _ _ Q R A B C x y f g hx hf s b s' hs hrun
    obtain ⟨a, s₁, ha, hb⟩ := run_bind_eq_ok hrun
    obtain ⟨hQ, hB⟩ := hx s a s₁ hs ha
    exact hf a hQ s₁ b s' hB hb

theorem leading_liftM {A B : σ → Prop} {Q : γ → Prop} {x : Attempt σ γ}
    (h : ∀ s a s', A s → x s = .ok a s' → Q a ∧ B s') :
    ((leading ε σ).comap (Attempt σ) (Attempt σ)).Rel A Q B x x := by
  intro s a s' hs hrun
  exact h s a s' hs (run_liftM_eq_ok_iff.1 hrun)

theorem leading_except {A B : σ → Prop} {Q : γ → Prop} {x : Except Fault γ}
    (hQ : ∀ a, x = .ok a → Q a) (hAB : ∀ s, A s → B s) :
    ((leading ε σ).comap (Except Fault) (Except Fault)).Rel A Q B x x := by
  intro s a s' hs hrun
  cases x with
  | ok b =>
    cases hrun
    exact ⟨hQ a rfl, hAB s hs⟩
  | error e => cases hrun

/-- Runs that return lead to states with a property, and runs that end early to others. -/
def ending (E : ε → σ → Prop) : Tracking σ (ExceptT ε (Attempt σ)) (ExceptT ε (Attempt σ)) where
  Rel A Q B x _ := ∀ s r s', A s → x.run s = .ok r s' → match r with
    | .ok a => Q a ∧ B s'
    | .error t => E t s'
  pure h hAB := by
    rintro s r s' hs ⟨⟩
    exact ⟨h, hAB s hs⟩
  bind := by
    intro _ _ Q R A B C x y f g hx hf s r s' hs hrun
    rw [run_bind] at hrun
    cases hxs : x.run s with
    | error e s₁ =>
      rw [hxs] at hrun
      cases hrun
    | ok p s₁ =>
      rw [hxs] at hrun
      have hp := hx s p s₁ hs hxs
      cases p with
      | ok a => exact hf a hp.1 s₁ r s' hp.2 hrun
      | error t =>
        cases hrun
        exact hp

theorem ending_liftM {E : ε → σ → Prop} {A B : σ → Prop} {Q : γ → Prop} {x : Attempt σ γ}
    (h : ∀ s a s', A s → x s = .ok a s' → Q a ∧ B s') :
    ((ending E).comap (Attempt σ) (Attempt σ)).Rel A Q B x x := by
  intro s r s' hs hrun
  rw [run_liftM] at hrun
  cases hx : x s with
  | error e s₁ =>
    rw [hx] at hrun
    cases hrun
  | ok a s₁ =>
    rw [hx] at hrun
    cases hrun
    exact h s a s' hs hx

theorem ending_throw {E : ε → σ → Prop} {A B : σ → Prop} {Q : γ → Prop} {t : ε}
    (h : ∀ s, A s → E t s) : (ending E).Rel A Q B (throw t) (throw t) := by
  rintro s r s' hs ⟨⟩
  exact h s hs

/-! ## Beside the state -/

theorem onFst_eq_ok_iff {x : Attempt σ γ} {s s' : σ} {r r' : ρ} {a : γ} :
    onFst x (s, r) = .ok a (s', r') ↔ x s = .ok a s' ∧ r = r' := by
  rw [onFst_apply]
  cases x s <;> simp [and_assoc]

theorem record_onFst_eq_ok_iff {entry : ρ} {x : Attempt σ γ} {s s' : σ} {log log' : Array ρ}
    {a : γ} : (do record entry; onFst x : Attempt (σ × Array ρ) γ) (s, log) = .ok a (s', log') ↔
      x s = .ok a s' ∧ log.push entry = log' :=
  onFst_eq_ok_iff (r := log.push entry)

/-- The simulation that forgets what stands beside the state. -/
def forgetting (σ ρ : Type) : Simulation (Attempt (σ × ρ)) (Attempt σ) where
  Rel Q x y := ∀ s r, match x (s, r) with
    | .ok a s' => Q a ∧ y s = .ok a s'.1
    | .error e s' => y s = .error e s'.1
  pure h _ _ := ⟨h, rfl⟩
  bind := by
    intro _ _ _ _ x y f g hx hf s r
    have hs := hx s r
    simp only [bind, EStateM.bind]
    cases hrun : x (s, r) with
    | ok a s' =>
      rw [hrun] at hs
      obtain ⟨ha, hy⟩ := hs
      rw [hy]
      exact hf a ha s'.1 s'.2
    | error e s' =>
      rw [hrun] at hs
      rw [hs]

/-- A run that returns does the same when more stands beside the state. -/
theorem exists_run_of_forgetting {Q : γ → Prop} {x : Attempt (σ × ρ) γ} {y : Attempt σ γ}
    (h : (forgetting σ ρ).Rel Q x y) {s s' : σ} {a : γ} (hy : y s = .ok a s') (r : ρ) :
    ∃ r', x (s, r) = .ok a (s', r') := by
  have hforget := h s r
  cases hx : x (s, r) with
  | ok b t =>
    obtain ⟨t, r'⟩ := t
    rw [hx, hy] at hforget
    cases hforget.2
    exact ⟨r', rfl⟩
  | error e t =>
    rw [hx, hy] at hforget
    cases hforget

theorem forgetting_throw (Q : γ → Prop) (e : Fault) :
    (forgetting σ ρ).Rel Q (throw e) (throw e) :=
  fun _ _ => rfl

theorem forgetting_onFst (x : Attempt σ γ) :
    (forgetting σ ρ).Rel (fun _ => True) (onFst x) x := by
  intro s r
  rw [onFst_apply]
  cases x s with
  | ok a s' => exact ⟨trivial, rfl⟩
  | error e s' => rfl

/-- What an answer changes beside the state is forgotten as well. -/
theorem forgetting_onFst_beside (x : Attempt σ γ) (f : γ → ρ → ρ) :
    (forgetting σ ρ).Rel (fun _ => True) (do let a ← onFst x; beside (f a); return a) x := by
  intro s r
  simp only [bind, EStateM.bind, onFst_apply]
  cases x s with
  | ok a s' => exact ⟨trivial, rfl⟩
  | error e s' => rfl

theorem forgetting_logged (x : Attempt σ ρ) :
    (forgetting σ (Array ρ)).Rel (fun _ => True) (logged x) x :=
  forgetting_onFst_beside x fun a (log : Array ρ) => log.push a

theorem forgetting_record (entry : ρ) (x : Attempt σ γ) :
    (forgetting σ (Array ρ)).Rel (fun _ => True) (do record entry; onFst x) x :=
  fun s log => forgetting_onFst x s (log.push entry)

/-- The simulation that sees of what stands beside the state no more than `f` shows. -/
def viewing (σ : Type) (f : ρ → ρ') : Simulation (Attempt (σ × ρ)) (Attempt (σ × ρ')) where
  Rel Q x y := ∀ s r, match x (s, r) with
    | .ok a s' => Q a ∧ y (s, f r) = .ok a (s'.1, f s'.2)
    | .error e s' => y (s, f r) = .error e (s'.1, f s'.2)
  pure h _ _ := ⟨h, rfl⟩
  bind := by
    intro _ _ _ _ x y g k hx hg s r
    have hs := hx s r
    simp only [bind, EStateM.bind]
    cases hrun : x (s, r) with
    | ok a s' =>
      rw [hrun] at hs
      obtain ⟨ha, hy⟩ := hs
      rw [hy]
      exact hg a ha s'.1 s'.2
    | error e s' =>
      rw [hrun] at hs
      rw [hs]

theorem viewing_throw (f : ρ → ρ') (Q : γ → Prop) (e : Fault) :
    (viewing σ f).Rel Q (throw e) (throw e) :=
  fun _ _ => rfl

theorem viewing_onFst (f : ρ → ρ') (x : Attempt σ γ) :
    (viewing σ f).Rel (fun _ => True) (onFst x) (onFst x) := by
  intro s r
  rw [onFst_apply, onFst_apply]
  cases x s with
  | ok a s' => exact ⟨trivial, rfl⟩
  | error e s' => rfl

/-- What is seen in part can be forgotten altogether. -/
theorem forgetting_of_viewing {f : ρ → ρ'} {Q R : γ → Prop} {x : Attempt (σ × ρ) γ}
    {y : Attempt (σ × ρ') γ} {z : Attempt σ γ} (hxy : (viewing σ f).Rel Q x y)
    (hyz : (forgetting σ ρ').Rel R y z) : (forgetting σ ρ).Rel Q x z := by
  intro s r
  have hview := hxy s r
  have hforget := hyz s (f r)
  cases hx : x (s, r) with
  | ok a s' =>
    rw [hx] at hview
    rw [hview.2] at hforget
    exact ⟨hview.1, hforget.2⟩
  | error e s' =>
    rw [hx] at hview
    rwa [hview] at hforget

/-- The simulation of computations with a log by computations without one, which may refuse to go on
when something is written down that is not among the entries `final`. -/
def admitting (σ : Type) (final : Array ρ) : Simulation (Attempt σ) (Attempt (σ × Array ρ)) where
  Rel Q x y := ∀ s log a s' log', y (s, log) = .ok a (s', log') →
    Q a ∧ (∀ e ∈ log, e ∈ log') ∧ ((∀ e ∈ log', e ∈ final) → x s = .ok a s')
  pure h := by
    rintro s log a s' log' ⟨⟩
    exact ⟨h, fun _ he => he, fun _ => rfl⟩
  bind := by
    intro _ _ Q R x y f g hx hf s log b s' log' hrun
    obtain ⟨a, ⟨s₁, log₁⟩, ha, hb⟩ := bind_eq_ok_iff.1 hrun
    obtain ⟨hQ, hlog, hxs⟩ := hx s log a s₁ log₁ ha
    obtain ⟨hR, hlog', hfs⟩ := hf a hQ s₁ log₁ b s' log' hb
    refine ⟨hR, fun e he => hlog' e (hlog e he), fun hfinal => ?_⟩
    simp only [bind, EStateM.bind]
    rw [hxs fun e he => hfinal e (hlog' e he)]
    exact hfs hfinal

theorem admitting_throw (final : Array ρ) (Q : γ → Prop) (e : Fault) :
    (admitting σ final).Rel Q (throw e) (throw e) := by
  rintro s log a s' log' ⟨⟩

theorem admitting_onFst (final : Array ρ) (x : Attempt σ γ) :
    (admitting σ final).Rel (fun _ => True) x (onFst x) := by
  intro s log a s' log' hrun
  obtain ⟨ha, rfl⟩ := onFst_eq_ok_iff.1 hrun
  exact ⟨trivial, fun _ he => he, fun _ => ha⟩

end TreeDiff.Attempt
