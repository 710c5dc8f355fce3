import TreeDiff.Proofs.Grid.Complete
import TreeDiff.Proofs.Grid.Indexed

/-!
# No operation of the search slips

The only faults of a search are overflows of costs and what its callbacks and its clock fail on. All
its entries of arrays are there, all its differences are natural numbers, all its rows have the size
that they should have, and without a limit of time it does not run out of time.

* `search_of_passes`: a search that nothing ends early is the one without an interrupt.
  `indexedScript_eq`: the same by numbers.
* `Policy.Fails`, `Policy.FailsWith`: the faults. `Policy.fault_of_search`: there are no others.
* `NeverSlips`: a computation without a slip, and `search_never_slips` for the search.
-/

namespace TreeDiff

variable {σ α β γ δ τ : Type}

/-! ## Without a limit of time -/

section

variable {m : Type → Type} [Monad m] [LawfulMonad m]

/-- The computations that nothing ends early, among those that may end early. -/
def Embedding.unended (τ : Type) (m : Type → Type) [Monad m] [LawfulMonad m] :
    Embedding (ExceptT Empty m) (ExceptT τ m) where
  map x := liftM (uninterrupted x)
  map_pure a := by rw [uninterrupted_pure, liftM_pure]
  map_bind y g := by rw [uninterrupted_bind, liftM_bind]

variable [MonadLiftT (Except Fault) m] [LawfulMonadLiftT (Except Fault) m] (P : Policy m α β δ)
  (xs : List α) (ys : List β)

/-- A search with an interrupt that lets it go on does not end early. -/
theorem search_of_passes {interrupt : Interrupt m τ} (hpass : interrupt.Passes)
    (settings : Settings) :
    search P settings.tieBreak interrupt xs ys = liftM (cheapestScript P settings xs ys) := by
  have hself : ∀ {γ : Type} (x : m γ),
      (Embedding.unended τ m).mirroring.Rel (fun _ => True) (liftM x) (liftM x) :=
    fun x => Embedding.mirroring_self _ (congrArg liftM (uninterrupted_liftM x))
  have hrule : SearchRule (Embedding.unended τ m).mirroring P P settings.tieBreak interrupt .never
      xs ys (fun _ _ => True) fun _ _ _ => True :=
    { delete_eq := rfl
      insert_eq := rfl
      check := fun solved total => by
        rw [hpass.check_eq, Interrupt.passes_never.check_eq]
        exact Simulation.pure _ trivial
      loss := fun _ _ => hself _
      gain := fun _ _ => hself _
      done := trivial
      delete := fun _ _ _ => hself (liftM _)
      insert := fun _ _ _ => hself (liftM _)
      cell := fun _ _ _ _ _ _ _ => hself _ }
  have hsearch := hrule.search
  exact Embedding.Mirrors.eq_map (hsearch.mono fun _ _ hab => hab.1)

/-- The search by numbers without a limit of time always has a script. -/
theorem indexedScript_eq (clock : m Instant) (settings : Settings) :
    indexedScript clock P settings xs ys = liftM (cheapestScript P settings xs ys) := by
  unfold indexedScript
  rw [indexedSearch_eq, search_of_passes P xs ys (Interrupt.passes_deadline_none clock) settings,
    Guarded.safe_liftM]
  show (Except.ok <$> (liftM (cheapestScript P settings xs ys) : ExceptT Slip m _)) >>= _ = _
  rw [map_eq_pure_bind, bind_assoc]
  simp only [pure_bind, bind_pure]

end

/-! ## Faults -/

namespace Policy

/-- The faults that a search with this policy may end in, with the state at the fault: an overflow
of costs, or the fault of a callback. -/
inductive Fails (P : Policy (Attempt σ) α β δ) : Fault → σ → Prop
  | overflow (s : σ) : P.Fails .costOverflow s
  | compare {x : α} {y : β} {s s' : σ} {e : Fault} :
    P.compare x y s = .error e s' → P.Fails e s'
  | cost {d : δ} {s s' : σ} {e : Fault} : P.cost d s = .error e s' → P.Fails e s'

/-- The faults that a search may end in with this policy and this interrupt. -/
def FailsWith (P : Policy (Attempt σ) α β δ) (interrupt : Interrupt (Attempt σ) τ) (e : Fault)
    (s' : σ) : Prop :=
  P.Fails e s' ∨ ∃ solved total s, interrupt solved total s = .error e s'

theorem related_faulting (P : Policy (Attempt σ) α β δ) (interrupt : Interrupt (Attempt σ) τ)
    (xs : List α) (ys : List β) :
    Related ((Attempt.faulting (P.FailsWith interrupt)).exceptT τ) P P interrupt interrupt
      (fun _ _ _ => True) xs ys := by
  refine .of_steps rfl rfl rfl ?_ (fun x _ y _ => ?_) ?_ fun Q s => .inl (.overflow s)
  · exact fun solved total => Attempt.faulting_self fun s _ _ hrun => .inr ⟨solved, total, s, hrun⟩
  · have hcompare : (Attempt.faulting (P.FailsWith interrupt)).Rel (fun _ => True) (P.compare x y)
        (P.compare x y) := Attempt.faulting_self fun _ _ _ hrun => .inl (.compare hrun)
    exact (Attempt.faulting _).mono hcompare fun _ _ _ _ => trivial
  · exact fun d => Attempt.faulting_self fun _ _ _ hrun => .inl (.cost hrun)

theorem fault_of_search {P : Policy (Attempt σ) α β δ} {tie : TieBreak}
    {interrupt : Interrupt (Attempt σ) τ} {xs : List α} {ys : List β} {s s' : σ} {e : Fault}
    (h : (search P tie interrupt xs ys).run s = .error e s') : P.FailsWith interrupt e s' := by
  have hsearch := (P.related_faulting interrupt xs ys).search tie s
  have hrun : ExceptT.run (search P tie interrupt xs ys) s = _ := h
  rwa [hrun] at hsearch

end Policy

/-- The clock is all that a deadline may fail on. -/
theorem Interrupt.deadline_eq_error {clock : Attempt σ Instant} {limit : Option Instant}
    {solved total : Nat} {s s' : σ} {e : Fault}
    (h : deadline clock limit solved total s = .error e s') : clock s = .error e s' := by
  cases limit with
  | none => cases h
  | some limit =>
    simp only [deadline, bind, EStateM.bind] at h
    cases hclock : clock s with
    | ok now s₁ =>
      rw [hclock] at h
      cases h
    | error e' s₁ =>
      rw [hclock] at h
      cases h
      rfl

/-! ## Slips -/

/-- The computation `x` does not slip: it ends as `y` does, and if this is with a fault, then with
one that has the property `F`. -/
def NeverSlips (F : Fault → σ → Prop) (x : ExceptT Slip (Attempt σ) γ) (y : Attempt σ γ) : Prop :=
  ∀ s, (∃ a s', x.run s = .ok (.ok a) s' ∧ y s = .ok a s') ∨
    ∃ e s', x.run s = .error e s' ∧ y s = .error e s' ∧ F e s'

theorem NeverSlips.of_run {F : Fault → σ → Prop} {x : ExceptT Slip (Attempt σ) γ} {y : Attempt σ γ}
    (hrun : x.run = Except.ok <$> y) (hy : ∀ s e s', y s = .error e s' → F e s') :
    NeverSlips F x y := by
  intro s
  rw [hrun]
  simp only [Functor.map, EStateM.map]
  cases h : y s with
  | ok a s' => exact .inl ⟨a, s', rfl, rfl⟩
  | error e s' => exact .inr ⟨e, s', rfl, rfl, hy s e s' h⟩

theorem NeverSlips.run_eq {F : Fault → σ → Prop} {x : ExceptT Slip (Attempt σ) γ} {y : Attempt σ γ}
    {s s' : σ} {a : γ} (h : NeverSlips F x y) (hy : y s = .ok a s') : x.run s = .ok (.ok a) s' := by
  obtain ⟨b, s₁, hx, hy'⟩ | ⟨e, s₁, -, hy', -⟩ := h s
  · rw [hy] at hy'
    cases hy'
    exact hx
  · rw [hy] at hy'
    cases hy'

/-- **The search by numbers never slips.** Each difference of numbers has a result and each entry of
an array exists, every row begins with a script for each suffix below it, each position finds a
script for all shorter suffixes, and the last row is not empty. What may end the search is the clock
or a fault, and the fault is an overflow of costs if it is not that of a callback. Without a limit
of time the search has a script, or ends in such a fault. Positions are counted by natural numbers
without a bound: nothing is said of counts in words of `2 ^ 64` values, which a larger grid exceeds. -/
theorem search_never_slips (P : Policy (Attempt σ) α β δ) (clock : Attempt σ Instant)
    (settings : Settings) (xs : List α) (ys : List β) :
    (∀ limit, NeverSlips (fun e s' => P.Fails e s' ∨ ∃ s, clock s = .error e s')
      (indexedSearch P settings.tieBreak (.deadline clock limit) xs ys).run
      (search P settings.tieBreak (.deadline clock limit) xs ys).run) ∧
    NeverSlips P.Fails (indexedScript clock P settings xs ys)
      (cheapestScript P settings xs ys) := by
  constructor
  · intro limit
    refine .of_run (by rw [indexedSearch_eq, Guarded.run_safe]) fun s e s' hrun => ?_
    refine (Policy.fault_of_search hrun).imp_right ?_
    rintro ⟨_, _, s₁, hask⟩
    exact ⟨s₁, Interrupt.deadline_eq_error hask⟩
  · refine .of_run (by rw [indexedScript_eq]; rfl) fun s e s' hrun => ?_
    obtain hfails | ⟨_, _, _, hask⟩ := Policy.fault_of_search (uninterrupted_eq_error_iff.1 hrun)
    · exact hfails
    · cases hask

/-- A search that returns a script, one that runs out of time, and one without a limit of time. -/
theorem search_never_slips_fickle :
    (indexedSearch Policy.fickle .edits (.deadline Policy.callClock (some ⟨20⟩)) [1, 2] [3]).run.run
        0 = .ok (.ok (.ok ⟨[((some 1, some 3), 2), ((some 2, none), 1)]⟩)) 6 ∧
      (indexedSearch Policy.fickle .edits (.deadline Policy.callClock (some ⟨4⟩)) [1, 2]
        [3]).run.run 0 = .ok (.ok (.error ⟨5, 6⟩)) 4 ∧
      (indexedScript Policy.callClock Policy.fickle {} [1, 2] [3]).run 0 =
        .ok (.ok ⟨[((some 1, some 3), 2), ((some 2, none), 1)]⟩) 6 := by
  obtain ⟨hsearch, hscript⟩ := search_never_slips Policy.fickle Policy.callClock {} [1, 2] [3]
  exact ⟨(hsearch _).run_eq rfl, (hsearch _).run_eq rfl, hscript.run_eq rfl⟩

end TreeDiff
