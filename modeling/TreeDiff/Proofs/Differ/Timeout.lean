import TreeDiff.Differ
import TreeDiff.LabelRule
import TreeDiff.Proofs.Grid.Deadline
import TreeDiff.Proofs.Grid.Timeout

/-!
# The accounts of all timeouts

A search inside another one keeps the report beside its state. With the report as a part of the
state it is a search like any other, and its timeouts are accounted for in the same way.

* `Reporting.flat`, `Policy.flat`: computations and policies with the report in their state.
* `Policy.related_flat`: nothing else changes. So `Differ.run_flat_searchScript`.
* `timeout_accounted`: the timeouts of searches, of calls with a limit of time, and of the searches
  inside the differ.
-/

namespace TreeDiff

variable {σ ρ α β γ δ ℓ τ : Type}

/-! ## The report in the state -/

/-- The computation with the report in its state. -/
def Reporting.flat (x : Reporting τ (Attempt σ) γ) : Attempt (σ × Option τ) γ := fun s =>
  match x.run s.2 s.1 with
  | .ok (a, r) s' => .ok a (s', r)
  | .error e s' => .error e (s', s.2)

/-- The policy with the report in its state. -/
def Policy.flat (P : Policy (Reporting τ (Attempt σ)) α β δ) :
    Policy (Attempt (σ × Option τ)) α β δ where
  delete := P.delete
  insert := P.insert
  compare x y := (P.compare x y).flat
  cost d := (P.cost d).flat
  ceiling := P.ceiling

/-- The simulation of computations that keep a report by computations with the report in their
state. -/
def flattening (σ τ : Type) :
    Simulation (Reporting τ (Attempt σ)) (Attempt (σ × Option τ)) where
  Rel Q x y := ∀ r s, match x.run r s with
    | .ok (a, r') s' => Q a ∧ y (s, r) = .ok a (s', r')
    | .error e s' => ∃ r', y (s, r) = .error e (s', r')
  pure h _ _ := ⟨h, rfl⟩
  bind := by
    intro _ _ _ _ x y f g hx hf r s
    have hs := hx r s
    rw [StateT.run_bind]
    simp only [bind, EStateM.bind]
    cases hrun : x.run r s with
    | ok p s' =>
      rw [hrun] at hs
      obtain ⟨ha, hy⟩ := hs
      rw [hy]
      exact hf p.1 ha p.2 s'
    | error e s' =>
      rw [hrun] at hs
      obtain ⟨r', hy⟩ := hs
      rw [hy]
      exact ⟨r', rfl⟩

theorem flattening_flat (x : Reporting τ (Attempt σ) γ) :
    (flattening σ τ).Rel (fun _ => True) x x.flat := by
  intro r s
  unfold Reporting.flat
  dsimp only
  cases x.run r s with
  | ok p s' => exact ⟨trivial, rfl⟩
  | error e s' => exact ⟨r, rfl⟩

theorem flattening_liftM (x : Attempt σ γ) :
    (flattening σ τ).Rel (fun _ => True) (liftM x) x.onFst := by
  intro r s
  rw [StateT.run_monadLift, monadLift_self]
  simp only [bind, EStateM.bind, Attempt.onFst_apply]
  cases x s with
  | ok a s' => exact ⟨trivial, rfl⟩
  | error e s' => exact ⟨r, rfl⟩

/-- Keeping the report in the state does not change what a policy does. -/
theorem Policy.related_flat (P : Policy (Reporting τ (Attempt σ)) α β δ)
    (interrupt : Interrupt (Attempt σ) τ) (xs : List α) (ys : List β) :
    Related ((flattening σ τ).exceptT τ) P P.flat (Differ.asking interrupt) interrupt.onFst
      (fun _ _ _ => True) xs ys :=
  .of_steps rfl rfl rfl (fun _ _ => flattening_liftM _)
    (fun _ _ _ _ => (flattening σ τ).mono (flattening_flat _) fun _ _ _ _ => trivial)
    (fun _ => flattening_flat _) fun _ r _ => ⟨r, rfl⟩

/-- A search inside the differ does the same with the report in its state. -/
theorem Differ.run_flat_searchScript {D : Differ (Attempt σ) ℓ}
    {interrupt : Interrupt (Attempt σ) τ} {cs : List (Candidate (Reporting τ (Attempt σ)) ℓ)}
    {bs : List (Tree ℓ)} {s s' : σ} {r r' : Option τ} {x : Except τ (Script (Diff ℓ))}
    (h : (D.searchScript interrupt cs bs).run.run r s = .ok (x, r') s') :
    (search D.policy.flat D.settings.tieBreak interrupt.onFst cs bs).run (s, r) =
      .ok x (s', r') := by
  have hflat := (D.policy.related_flat interrupt cs bs).search D.settings.tieBreak r s
  unfold Differ.searchScript at h
  rw [h] at hflat
  exact hflat.2

/-! ## The accounts -/

/-- **Every timeout is accounted for**: those of searches, of calls with a limit of time, and of the
searches inside the differ, from whatever state they start. -/
theorem timeout_accounted (P : Policy (Attempt σ) α β δ) (D : Differ (Attempt σ) ℓ)
    (clock : Attempt σ Instant) :
    (∀ tie limit xs ys s s' t,
      (search P tie (.deadline clock limit) xs ys).run s = .ok (.error t) s' →
        P.AccountsFor tie clock limit xs ys s s' t) ∧
    (∀ settings xs ys s s' t,
      (cheapestEditsWithin clock P settings xs ys).run s = .ok (.error t) s' →
        ∃ limit s₁, settings.limit clock s = .ok limit s₁ ∧
          P.AccountsFor settings.tieBreak clock limit xs ys s₁ s' t) ∧
    (∀ limit cs bs s s' r r' t,
      (D.searchScript (.deadline clock limit) cs bs).run.run r s = .ok (.error t, r') s' →
        D.policy.flat.AccountsFor D.settings.tieBreak clock.onFst limit cs bs (s, r) (s', r')
          t) := by
  refine ⟨fun _ _ _ _ _ _ _ h => Policy.accountsFor_of_search h, ?_, ?_⟩
  · intro settings xs ys s s' t h
    obtain ⟨limit, s₁, hlimit, hsearch⟩ := exists_search_of_timeout h
    exact ⟨limit, s₁, hlimit, Policy.accountsFor_of_search hsearch⟩
  · intro limit cs bs s s' r r' t h
    have hflat := Differ.run_flat_searchScript h
    rw [Interrupt.onFst_deadline] at hflat
    exact Policy.accountsFor_of_search hflat

/-- The differ on a count of its calls and a clock. It takes a nanosecond to find a price. -/
def Differ.ticking : Differ (Attempt (Nat × Instant)) String where
  sameLabel := LabelRule.exact.same
  cost _ s := .ok 1 (s.1 + 1, s.2.later ⟨1⟩)

/-- In the last of the three searches, the time runs out in the only search inside it. -/
theorem timeout_accounted_ticking :
    Policy.ticking.AccountsFor .edits Policy.tickingClock (some ⟨20⟩) [1, 2] [3, 4] (0, ⟨0⟩)
        (8, ⟨26⟩) ⟨7, 9⟩ ∧
      (∃ limit s₁, Settings.limit { deadline := some ⟨20⟩ } Policy.tickingClock (0, ⟨0⟩) =
          .ok limit s₁ ∧
        Policy.ticking.AccountsFor .edits Policy.tickingClock limit [1, 2] [3, 4] s₁ (8, ⟨26⟩)
          ⟨7, 9⟩) ∧
      Differ.ticking.policy.flat.AccountsFor .edits Policy.tickingClock.onFst (some ⟨6⟩)
        (Differ.ticking.candidates (.deadline Policy.tickingClock (some ⟨6⟩))
          [.leaf "y", .node "x" [.leaf "a"]])
        [.leaf "y", .node "x" [.leaf "b"]] ((0, ⟨0⟩), none) ((6, ⟨6⟩), some ⟨3, 4⟩) ⟨5, 9⟩ := by
  obtain ⟨hsearch, hcall, hinside⟩ :=
    timeout_accounted Policy.ticking Differ.ticking Policy.tickingClock
  exact ⟨hsearch _ _ _ _ _ _ _ rfl, hcall { deadline := some ⟨20⟩ } _ _ _ _ _ rfl,
    hinside _ _ _ _ _ _ _ _ rfl⟩

end TreeDiff
