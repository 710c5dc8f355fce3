import Mathlib.Data.List.Basic

/-!
# Simulations between monads

A simulation relates computations of two monads that give the same answer. It says of related
computations in which states and with which effects they may differ; the property of the answers
is a parameter, so that it can depend on what a computation has been asked. What is required is
that answers are related to themselves and that sequences of related steps are related.

* `Simulation m n`: the simulations between `m` and `n`.
* `Simulation.comap`: the simulation of computations that are lifted to `m` and `n`.
* `Simulation.stateT`, `Simulation.exceptT`: the simulations with a further state, and with an early
  end, on both sides.
* `Simulation.answer`: the simulation that says of the first computation that it is no more than
  an answer. With it, rules for related computations are rules for single ones.
  `Simulation.sameAnswer` says this of both.
* `Tracking κ m n`: simulations that keep account of a state `κ`; every simulation is one that says
  nothing of the state, `Simulation.tracking`.
* `Tracking.foldrM`: folds with related steps are related. The properties of the answers and of the
  state speak of the part of the list that has been used.
-/

namespace TreeDiff

/-- A relation between computations that give the same answer, one with the property `Q`. -/
structure Simulation (m n : Type → Type) [Monad m] [Monad n] where
  Rel : {γ : Type} → (Q : γ → Prop) → m γ → n γ → Prop
  pure : ∀ {γ : Type} {Q : γ → Prop} {a : γ}, Q a → Rel Q (pure a) (pure a)
  bind : ∀ {γ γ' : Type} {Q : γ → Prop} {R : γ' → Prop} {x : m γ} {y : n γ} {f : γ → m γ'}
    {g : γ → n γ'}, Rel Q x y → (∀ a, Q a → Rel R (f a) (g a)) → Rel R (x >>= f) (y >>= g)

namespace Simulation

variable {m n : Type → Type} [Monad m] [Monad n] (S : Simulation m n) {γ ε : Type}

/-- What is known of an answer may be said in other words. -/
theorem mono [LawfulMonad m] [LawfulMonad n] {Q R : γ → Prop} {x : m γ} {y : n γ}
    (h : S.Rel Q x y) (hQR : ∀ a, Q a → R a) : S.Rel R x y := by
  have hpure : S.Rel R (x >>= Pure.pure) (y >>= Pure.pure) :=
    S.bind h fun a ha => S.pure (hQR a ha)
  rwa [bind_pure, bind_pure] at hpure

/-- The simulation between computations that are lifted to `m` and `n`. -/
def comap (k k' : Type → Type) [Monad k] [Monad k'] [MonadLiftT k m] [LawfulMonadLiftT k m]
    [MonadLiftT k' n] [LawfulMonadLiftT k' n] : Simulation k k' where
  Rel Q x y := S.Rel Q (liftM x) (liftM y)
  pure h := by
    rw [liftM_pure, liftM_pure]
    exact S.pure h
  bind hx hf := by
    rw [liftM_bind, liftM_bind]
    exact S.bind hx hf

/-- The simulation of computations that are no more than an answer. -/
def answer (m : Type → Type) [Monad m] [LawfulMonad m] : Simulation m m where
  Rel Q x _ := ∃ a, Q a ∧ x = Pure.pure a
  pure h := ⟨_, h, rfl⟩
  bind := by
    rintro _ _ _ _ _ _ _ _ ⟨a, ha, rfl⟩ hf
    obtain ⟨b, hb, hfb⟩ := hf a ha
    exact ⟨b, hb, by rw [pure_bind, hfb]⟩

/-- The simulation of computations that are no more than the same answer. -/
def sameAnswer (m : Type → Type) [Monad m] [LawfulMonad m] : Simulation m m where
  Rel Q x y := ∃ a, Q a ∧ x = Pure.pure a ∧ y = Pure.pure a
  pure h := ⟨_, h, rfl, rfl⟩
  bind := by
    rintro _ _ _ _ _ _ _ _ ⟨a, ha, rfl, rfl⟩ hf
    obtain ⟨b, hb, hfb, hgb⟩ := hf a ha
    exact ⟨b, hb, by rw [pure_bind, hfb], by rw [pure_bind, hgb]⟩

theorem comap_answer [LawfulMonad m] {k k' : Type → Type} [Monad k] [Monad k'] [MonadLiftT k m]
    [LawfulMonadLiftT k m] [MonadLiftT k' m] [LawfulMonadLiftT k' m] {Q : γ → Prop} {x : k γ}
    {y : k' γ} {a : γ} (ha : Q a) (hx : x = Pure.pure a) : ((answer m).comap k k').Rel Q x y := by
  refine ⟨a, ha, ?_⟩
  rw [hx, liftM_pure]

/-! ## Transformers -/

section

variable [LawfulMonad m] [LawfulMonad n] {ρ : Type}

/-- The simulation of computations with a further state, which is the same on both sides. -/
def stateT (ρ : Type) : Simulation (StateT ρ m) (StateT ρ n) where
  Rel Q x y := ∀ r, S.Rel (fun p => Q p.1) (x.run r) (y.run r)
  pure h r := by
    rw [StateT.run_pure, StateT.run_pure]
    exact S.pure h
  bind hx hf r := by
    rw [StateT.run_bind, StateT.run_bind]
    exact S.bind (hx r) fun p hp => hf p.1 hp p.2

/-- The simulation of computations that may end early, in the same way on both sides. -/
def exceptT (ε : Type) : Simulation (ExceptT ε m) (ExceptT ε n) where
  Rel Q x y := S.Rel (fun r => ∀ a, r = .ok a → Q a) x.run y.run
  pure h := by
    rw [ExceptT.run_pure, ExceptT.run_pure]
    exact S.pure fun a ha => by cases ha; exact h
  bind hx hf := by
    rw [ExceptT.run_bind, ExceptT.run_bind]
    refine S.bind hx fun r hr => ?_
    cases r with
    | ok a => exact hf a (hr a rfl)
    | error e => exact S.pure nofun

omit [LawfulMonad m] [LawfulMonad n] in
/-- Computations that do not touch the further state are related as such. -/
theorem stateT_liftM {Q : γ → Prop} {x : m γ} {y : n γ} (h : S.Rel Q x y) :
    (S.stateT ρ).Rel Q (liftM x) (liftM y) := by
  intro r
  rw [StateT.run_monadLift, StateT.run_monadLift]
  exact S.bind h fun a ha => S.pure ha

/-- Computations that do not end early are related as such. -/
theorem exceptT_liftM {Q : γ → Prop} {x : m γ} {y : n γ} (h : S.Rel Q x y) :
    (S.exceptT ε).Rel Q (liftM x) (liftM y) := by
  show S.Rel _ (Except.ok <$> x) (Except.ok <$> y)
  rw [map_eq_pure_bind, map_eq_pure_bind]
  refine S.bind h fun a ha => S.pure fun b hb => ?_
  cases hb
  exact ha

omit [LawfulMonad m] [LawfulMonad n] in
/-- The same early end. -/
theorem exceptT_throw (Q : γ → Prop) (e : ε) : (S.exceptT ε).Rel Q (throw e) (throw e) := by
  show S.Rel _ (Pure.pure (Except.error e)) (Pure.pure (Except.error e))
  exact S.pure nofun

end

end Simulation

/-! ## Keeping account of a state -/

/-- A simulation that keeps account of a state. Related computations give the same answer, one with
the property `Q`, and lead from states with the property `A` to states with the property `B`. -/
structure Tracking (κ : Type) (m n : Type → Type) [Monad m] [Monad n] where
  Rel : {γ : Type} → (A : κ → Prop) → (Q : γ → Prop) → (B : κ → Prop) → m γ → n γ → Prop
  pure : ∀ {γ : Type} {Q : γ → Prop} {A B : κ → Prop} {a : γ}, Q a → (∀ k, A k → B k) →
    Rel A Q B (pure a) (pure a)
  bind : ∀ {γ γ' : Type} {Q : γ → Prop} {R : γ' → Prop} {A B C : κ → Prop} {x : m γ} {y : n γ}
    {f : γ → m γ'} {g : γ → n γ'}, Rel A Q B x y → (∀ a, Q a → Rel B R C (f a) (g a)) →
    Rel A R C (x >>= f) (y >>= g)

/-- The simulation without an account of a state. -/
def Simulation.tracking {m n : Type → Type} [Monad m] [Monad n] (S : Simulation m n) (κ : Type) :
    Tracking κ m n where
  Rel _ Q _ x y := S.Rel Q x y
  pure h _ := S.pure h
  bind := S.bind

namespace Tracking

variable {κ : Type} {m n : Type → Type} [Monad m] [Monad n] (T : Tracking κ m n) {γ ε : Type}

/-- The account of computations that are lifted to `m` and `n`. -/
def comap (k k' : Type → Type) [Monad k] [Monad k'] [MonadLiftT k m] [LawfulMonadLiftT k m]
    [MonadLiftT k' n] [LawfulMonadLiftT k' n] : Tracking κ k k' where
  Rel A Q B x y := T.Rel A Q B (liftM x) (liftM y)
  pure h hAB := by
    rw [liftM_pure, liftM_pure]
    exact T.pure h hAB
  bind hx hf := by
    rw [liftM_bind, liftM_bind]
    exact T.bind hx hf

variable [LawfulMonad m] [LawfulMonad n]

/-- What is known of an answer may be said in other words. -/
theorem mono {A B : κ → Prop} {Q R : γ → Prop} {x : m γ} {y : n γ} (h : T.Rel A Q B x y)
    (hQR : ∀ a, Q a → R a) : T.Rel A R B x y := by
  have hpure : T.Rel A R B (x >>= Pure.pure) (y >>= Pure.pure) :=
    T.bind h fun a ha => T.pure (hQR a ha) fun _ hk => hk
  rwa [bind_pure, bind_pure] at hpure

theorem foldrM {I : List ε → γ → Prop} {J : List ε → κ → Prop} {f : ε → γ → m γ}
    {g : ε → γ → n γ} {b : γ} (l : List ε) (hb : I [] b)
    (h : ∀ e l' c, e :: l' <:+ l → I l' c →
      T.Rel (J l') (I (e :: l')) (J (e :: l')) (f e c) (g e c)) :
    T.Rel (J []) (I l) (J l) (l.foldrM f b) (l.foldrM g b) := by
  induction l with
  | nil => exact T.pure hb fun _ hk => hk
  | cons e l ih =>
    rw [List.foldrM_cons, List.foldrM_cons]
    have hl : T.Rel (J []) (I l) (J l) (l.foldrM f b) (l.foldrM g b) :=
      ih fun e' l' c hl' => h e' l' c (hl'.trans (List.suffix_cons e l))
    exact T.bind hl fun c hc => h e l c List.suffix_rfl hc

end Tracking

end TreeDiff
