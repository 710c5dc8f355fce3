import TreeDiff.Grid.Search
import TreeDiff.Proofs.Attempt

/-!
# One position of the search

A position is asked about first, and then gets its script: the candidates of deletion and insertion
are priced, the two heads are compared, and the match is priced if there is one.

* `liftM_of_ok`, `bind_liftM_ok`: a result, and what goes on from it.
* `Interrupt.check`: the question before a position. `Policy.nextCell_eq` puts it before the cell.
* `Tracking.cell`: the steps of a cell, for two policies at once.
* `Policy.afterCompare`, `Policy.cell_eq_of_ok`: what is left of a cell after its comparison.
* `Policy.cell_cases`: all that a cell can have done when it returns a script.
-/

namespace TreeDiff

variable {m m₁ m₂ : Type → Type} {α β γ γ' δ κ ρ σ τ : Type}

/-! ## Results -/

theorem liftM_of_ok [Monad m] [MonadLiftT (Except ρ) m] [LawfulMonadLiftT (Except ρ) m]
    {x : Except ρ γ} {a : γ} (h : x = .ok a) : (liftM x : m γ) = pure a := by
  rw [h]
  exact liftM_pure (m := Except ρ) a

/-- What goes on from a result. -/
theorem bind_liftM_ok [Monad m] [LawfulMonad m] [MonadLiftT (Except ρ) m]
    [LawfulMonadLiftT (Except ρ) m] {x : Except ρ γ} {a : γ} (h : x = .ok a) (f : γ → m γ') :
    (liftM x >>= f) = f a := by
  rw [liftM_of_ok h, pure_bind]

/-! ## The question before a position -/

/-- The question before a position, as a computation that an answer ends. -/
def Interrupt.check [Monad m] (interrupt : Interrupt m τ) (solved total : Nat) :
    ExceptT τ m Unit := do
  match ← interrupt solved total with
  | some t => throw t
  | none => return ()

/-- Related questions make related checks. -/
theorem Simulation.check [Monad m₁] [LawfulMonad m₁] [Monad m₂] [LawfulMonad m₂]
    (S : Simulation m₁ m₂) {interrupt : Interrupt m₁ τ} {interrupt' : Interrupt m₂ τ}
    {solved total : Nat}
    (h : S.Rel (fun _ => True) (interrupt solved total) (interrupt' solved total)) :
    (S.exceptT τ).Rel (fun _ => True) (interrupt.check solved total)
      (interrupt'.check solved total) := by
  refine (S.exceptT τ).bind (S.exceptT_liftM h) fun o _ => ?_
  cases o with
  | none => exact (S.exceptT τ).pure trivial
  | some t => exact S.exceptT_throw _ t

/-- Related clocks make related questions. -/
theorem Simulation.deadline [Monad m₁] [Monad m₂] (S : Simulation m₁ m₂) {clock : m₁ Instant}
    {clock' : m₂ Instant} (h : S.Rel (fun _ => True) clock clock') (limit : Option Instant)
    (solved total : Nat) :
    S.Rel (fun _ => True) (Interrupt.deadline clock limit solved total)
      (Interrupt.deadline clock' limit solved total) := by
  cases limit with
  | none => exact S.pure trivial
  | some limit => exact S.bind h fun now _ => S.pure trivial

/-- A question that keeps a property of the state makes a check that does. -/
theorem Attempt.leading_check {A : κ → Prop} {interrupt : Interrupt (Attempt κ) τ}
    {solved total : Nat} (h : ∀ s o s', A s → interrupt solved total s = .ok o s' → A s') :
    (leading τ κ).Rel A (fun _ => True) A (interrupt.check solved total)
      (interrupt.check solved total) := by
  refine (leading τ κ).bind (Q := fun _ => True) (B := A) ?_ fun o _ => ?_
  · exact leading_liftM fun s o s' hs hrun => ⟨trivial, h s o s' hs hrun⟩
  · cases o with
    | none => exact (leading τ κ).pure trivial fun s hs => hs
    | some t => exact nofun

theorem Policy.nextCell_eq [Monad m] [LawfulMonad m] [MonadLiftT (Except Fault) m]
    (P : Policy m α β δ) (tie : TieBreak) (interrupt : Interrupt m τ) (total : Nat)
    (x : Priced α δ) (y : Priced β δ) (lost both : Script δ) (row : Row δ) :
    P.nextCell tie interrupt total x (y, lost, both) row = (do
      interrupt.check row.solved total
      let s ← P.cell tie x y lost row.first both
      return row.push s) := by
  unfold Policy.nextCell Interrupt.check
  rw [bind_assoc]
  refine bind_congr fun o => ?_
  cases o with
  | none => rw [pure_bind]
  | some t =>
    -- what comes after a thrown answer is not run
    refine ExceptT.ext ?_
    rw [ExceptT.run_bind]
    simp only [ExceptT.run_throw, pure_bind]

/-! ## Related cells -/

section

variable [Monad m₁] [MonadLiftT (Except Fault) m₁] [LawfulMonadLiftT (Except Fault) m₁] [Monad m₂]
  [MonadLiftT (Except Fault) m₂] [LawfulMonadLiftT (Except Fault) m₂] (P : Policy m₁ α β δ)
  (P' : Policy m₂ α β δ) {x : Priced α δ} {y : Priced β δ} {lost gained both : Script δ}

/-- The scripts of a position are related and have the property `p`, if the candidates have it. The
state changes with the comparison. -/
theorem Tracking.cell (T : Tracking κ m₁ m₂) (tie : TieBreak) {p : Script δ → Prop}
    {Q : δ → Prop} {K : δ → Nat → Prop} {A B : κ → Prop}
    (hdelete : (T.comap (Except Fault) (Except Fault)).Rel A p A (P.prepend x lost)
      (P'.prepend x lost))
    (hinsert : (T.comap (Except Fault) (Except Fault)).Rel A p A (P.prepend y gained)
      (P'.prepend y gained))
    (hcompare : T.Rel A (fun o => ∀ d, o = some d → Q d) B (P.compare x.item y.item)
      (P'.compare x.item y.item))
    (hcost : ∀ d, Q d → T.Rel B (K d) B (P.cost d) (P'.cost d))
    (hboth : ∀ d c, Q d → K d c → (T.comap (Except Fault) (Except Fault)).Rel B p B
      (both.prepend P.ceiling d c) (both.prepend P'.ceiling d c)) :
    T.Rel A p B (P.cell tie x y lost gained both) (P'.cell tie x y lost gained both) := by
  have hmatching : T.Rel A (fun o => ∀ s, o = some s → p s) B (P.matching x.item y.item both)
      (P'.matching x.item y.item both) := by
    unfold Policy.matching
    refine T.bind hcompare fun o ho => ?_
    cases o with
    | none => exact T.pure nofun fun _ hk => hk
    | some d =>
      refine T.bind (hcost d (ho d rfl)) fun c hc => ?_
      refine T.bind (hboth d c (ho d rfl) hc) fun s hs => T.pure ?_ fun _ hk => hk
      rintro _ ⟨⟩
      exact hs
  unfold Policy.cell
  refine T.bind hdelete fun viaDelete hviaDelete => ?_
  refine T.bind hinsert fun viaInsert hviaInsert => ?_
  refine T.bind hmatching fun viaMatch hviaMatch => T.pure ?_ fun _ hk => hk
  exact tie.pick_ind hviaDelete hviaInsert hviaMatch

end

/-! ## After the comparison -/

namespace Policy

section

variable [Monad m] [LawfulMonad m] [MonadLiftT (Except Fault) m] [LawfulMonadLiftT (Except Fault) m]

/-- What a position does after its comparison, when deletion and insertion are priced. -/
def afterCompare (P : Policy m α β δ) (tie : TieBreak) (viaDelete viaInsert both : Script δ) :
    Option δ → m (Script δ)
  | none => return tie.pick viaDelete viaInsert none
  | some d => do
    let price ← P.cost d
    let viaMatch ← both.prepend P.ceiling d price
    return tie.pick viaDelete viaInsert (some viaMatch)

theorem cell_eq_of_ok (P : Policy m α β δ) (tie : TieBreak) {x : Priced α δ} {y : Priced β δ}
    {lost gained viaDelete viaInsert : Script δ} (both : Script δ)
    (hdelete : P.prepend x lost = .ok viaDelete) (hinsert : P.prepend y gained = .ok viaInsert) :
    P.cell tie x y lost gained both =
      P.compare x.item y.item >>= P.afterCompare tie viaDelete viaInsert both := by
  unfold cell matching
  rw [bind_liftM_ok hdelete, bind_liftM_ok hinsert, bind_assoc]
  refine bind_congr fun o => ?_
  cases o with
  | none => rw [pure_bind]; rfl
  | some d =>
    simp only [bind_assoc, pure_bind]
    rfl

end

variable {P : Policy (Attempt σ) α β δ} {tie : TieBreak} {x : Priced α δ} {y : Priced β δ}
  {lost gained both script : Script δ} {s s' : σ}

/-- A position that gets a script has priced deletion and insertion. -/
theorem exists_prepend_of_cell (h : P.cell tie x y lost gained both s = .ok script s') :
    ∃ viaDelete viaInsert, P.prepend x lost = .ok viaDelete ∧
      P.prepend y gained = .ok viaInsert := by
  obtain ⟨viaDelete, s₁, hdelete, h⟩ := Attempt.bind_eq_ok_iff.1 h
  obtain ⟨viaInsert, s₂, hinsert, -⟩ := Attempt.bind_eq_ok_iff.1 h
  exact ⟨viaDelete, viaInsert, (Attempt.liftM_except_eq_ok_iff.1 hdelete).1,
    (Attempt.liftM_except_eq_ok_iff.1 hinsert).1⟩

/-- A position that gets a script has compared its heads, and has priced the match if there is one.
The script is then picked from two or three candidates. -/
theorem cell_cases (h : P.cell tie x y lost gained both s = .ok script s') :
    ∃ viaDelete viaInsert, P.prepend x lost = .ok viaDelete ∧ P.prepend y gained = .ok viaInsert ∧
      ((P.compare x.item y.item s = .ok none s' ∧ script = tie.pick viaDelete viaInsert none) ∨
        ∃ d c s₁ viaMatch, P.compare x.item y.item s = .ok (some d) s₁ ∧
          P.cost d s₁ = .ok c s' ∧ both.prepend P.ceiling d c = .ok viaMatch ∧
          script = tie.pick viaDelete viaInsert (some viaMatch)) := by
  obtain ⟨viaDelete, viaInsert, hdelete, hinsert⟩ := exists_prepend_of_cell h
  rw [P.cell_eq_of_ok tie both hdelete hinsert] at h
  obtain ⟨o, s₁, ho, h⟩ := Attempt.bind_eq_ok_iff.1 h
  refine ⟨viaDelete, viaInsert, hdelete, hinsert, ?_⟩
  cases o with
  | none =>
    cases h
    exact .inl ⟨ho, rfl⟩
  | some d =>
    obtain ⟨c, s₂, hc, h⟩ := Attempt.bind_eq_ok_iff.1 h
    obtain ⟨viaMatch, s₃, hlift, h⟩ := Attempt.bind_eq_ok_iff.1 h
    obtain ⟨hmatch, rfl⟩ := Attempt.liftM_except_eq_ok_iff.1 hlift
    cases h
    exact .inr ⟨d, c, s₁, viaMatch, ho, hc, hmatch, rfl⟩

end Policy

end TreeDiff
