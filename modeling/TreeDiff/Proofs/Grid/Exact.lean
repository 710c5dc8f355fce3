import TreeDiff.Proofs.Grid.Optimum
import TreeDiff.Proofs.Grid.Traversal

/-!
# Searches without effects

If neither the comparison nor the prices nor the interrupt have effects, and no sum of the
recurrence lies above the ceiling, then the search by rows is no more than an answer: the script of
the recurrence, edit for edit and annotation for annotation.

* `Policy.cell_eq_pure`: one position, when no candidate lies above the ceiling.
* `search_lift`: the whole search, for any interrupt that lets it go on.
* `cheapestScript_lift`, `cheapestEdits_lift`, `cheapestEditsWithin_lift`: the calls that use it.
-/

namespace TreeDiff

variable {m : Type → Type} [Monad m] [LawfulMonad m] [MonadLiftT (Except Fault) m]
  [LawfulMonadLiftT (Except Fault) m] {α β δ τ : Type}

/-! ## One position -/

omit [LawfulMonad m] in
theorem Script.liftM_prepend {ceiling c : Nat} {d : δ} {s : Script δ}
    (h : c + s.total ≤ ceiling) :
    (liftM (s.prepend ceiling d c) : m (Script δ)) = pure (s.cons d c) :=
  liftM_of_ok (prepend_eq_ok_iff.2 ⟨h, rfl⟩)

/-- A position whose candidates do not lie above the ceiling. -/
theorem Policy.cell_eq_pure (P : Policy m α β δ) (tie : TieBreak) {x : Priced α δ}
    {y : Priced β δ} {lost gained both : Script δ} {o : Option δ} {price : δ → Nat}
    (hcompare : P.compare x.item y.item = pure o)
    (hprice : ∀ d, o = some d → P.cost d = pure (price d))
    (hdelete : x.price + lost.total ≤ P.ceiling) (hinsert : y.price + gained.total ≤ P.ceiling)
    (hboth : ∀ d, o = some d → price d + both.total ≤ P.ceiling) :
    P.cell tie x y lost gained both =
      pure (tie.pick (lost.cons x.edit x.price) (gained.cons y.edit y.price)
        (o.map fun d => both.cons d (price d))) := by
  have hmatching : P.matching x.item y.item both = pure (o.map fun d => both.cons d (price d)) := by
    unfold Policy.matching
    rw [hcompare, pure_bind]
    cases o with
    | none => rfl
    | some d =>
      simp only [hprice d rfl, pure_bind]
      rw [Script.liftM_prepend (hboth d rfl), pure_bind]
      rfl
  unfold Policy.cell Policy.prepend
  rw [Script.liftM_prepend hdelete, pure_bind, Script.liftM_prepend hinsert, pure_bind, hmatching,
    pure_bind]

namespace Interrupt

omit [LawfulMonad m] [MonadLiftT (Except Fault) m] [LawfulMonadLiftT (Except Fault) m]

/-- The interrupt lets the search go on, whenever it is asked. -/
def Passes (interrupt : Interrupt m τ) : Prop :=
  ∀ solved total, interrupt solved total = pure none

theorem passes_never : (never : Interrupt m Empty).Passes := fun _ _ => rfl

theorem passes_deadline_none (clock : m Instant) : (deadline clock none).Passes := fun _ _ => rfl

theorem Passes.check_eq [LawfulMonad m] {interrupt : Interrupt m τ} (h : interrupt.Passes)
    (solved total : Nat) : interrupt.check solved total = pure () := by
  unfold check
  rw [h, liftM_pure, pure_bind]

end Interrupt

/-! ## Sums below the ceiling -/

namespace Policy

variable {P : Policy Id α β δ} {xs xs' : List α} {ys ys' : List β} {x : α} {y : β}

theorem Fits.delete_le (h : P.Fits xs ys) (hx : x :: xs' <:+ xs) (hy : ys' <:+ ys) :
    (P.cost (P.delete x)).run + P.optimum xs' ys' ≤ P.ceiling := by
  refine h (x :: xs') ys' hx hy _ ?_
  cases ys' <;> simp [sums]

theorem Fits.insert_le (h : P.Fits xs ys) (hx : xs' <:+ xs) (hy : y :: ys' <:+ ys) :
    (P.cost (P.insert y)).run + P.optimum xs' ys' ≤ P.ceiling := by
  refine h xs' (y :: ys') hx hy _ ?_
  cases xs' <;> simp [sums]

theorem Fits.match_le (h : P.Fits xs ys) (hx : x :: xs' <:+ xs) (hy : y :: ys' <:+ ys) {d : δ}
    (hd : (P.compare x y).run = some d) :
    (P.cost d).run + P.optimum xs' ys' ≤ P.ceiling := by
  refine h (x :: xs') (y :: ys') hx hy _ ?_
  simp [sums, hd]

end Policy

/-! ## The whole search -/

section

variable (P : Policy Id α β δ) (tie : TieBreak) {xs : List α} {ys : List β}

/-- Every position gets the script of the recurrence. -/
theorem searchRule_lift (h : P.Fits xs ys) {interrupt : Interrupt m τ}
    (hpass : interrupt.Passes) :
    SearchRule (.answer _) (P.lift : Policy m α β δ) P.lift tie interrupt interrupt xs ys
      (fun d c => c = (P.cost d).run) (fun xs' ys' s => s = P.best tie xs' ys') where
  delete_eq := rfl
  insert_eq := rfl
  check solved total := ⟨(), trivial, hpass.check_eq solved total⟩
  loss x _ := ⟨_, rfl, liftM_pure _⟩
  gain y _ := ⟨_, rfl, liftM_pure _⟩
  done := by rw [Policy.best]
  delete := by
    rintro x xs' c s hx rfl rfl
    refine ⟨_, ?_, Script.liftM_prepend ?_⟩
    · rw [Policy.best]; rfl
    · rw [Policy.total_best]
      exact h.delete_le hx (List.nil_suffix)
  insert := by
    rintro y ys' c s hy rfl rfl
    refine ⟨_, ?_, Script.liftM_prepend ?_⟩
    · rw [Policy.best]; rfl
    · rw [Policy.total_best]
      exact h.insert_le (List.nil_suffix) hy
  cell := by
    rintro x xs' y ys' c c' lost gained both hx hy rfl rfl rfl rfl rfl
    have hcell : (P.lift : Policy m α β δ).cell tie ⟨x, P.delete x, (P.cost (P.delete x)).run⟩
        ⟨y, P.insert y, (P.cost (P.insert y)).run⟩ (P.best tie xs' (y :: ys'))
        (P.best tie (x :: xs') ys') (P.best tie xs' ys') =
          pure (P.best tie (x :: xs') (y :: ys')) := by
      rw [Policy.best_cons_cons]
      refine Policy.cell_eq_pure _ tie rfl (fun d _ => rfl) ?_ ?_ fun d hd => ?_
      · rw [Policy.total_best]
        exact h.delete_le hx hy
      · rw [Policy.total_best]
        exact h.insert_le hx hy
      · rw [Policy.total_best]
        exact h.match_le hx hy hd
    exact ⟨_, rfl, (congrArg liftM hcell).trans (liftM_pure (m := m) _)⟩

/-- The search by rows is the recurrence. -/
theorem search_lift (h : P.Fits xs ys) {interrupt : Interrupt m τ} (hpass : interrupt.Passes) :
    search (P.lift : Policy m α β δ) tie interrupt xs ys = pure (P.best tie xs ys) := by
  obtain ⟨s, rfl, hs⟩ := (searchRule_lift P tie h hpass).search
  exact hs

omit [MonadLiftT (Except Fault) m] [LawfulMonadLiftT (Except Fault) m] in
theorem uninterrupted_pure {γ : Type} (a : γ) :
    uninterrupted (pure a : ExceptT Empty m γ) = pure a := by
  unfold uninterrupted
  rw [ExceptT.run_pure, pure_bind]

omit [MonadLiftT (Except Fault) m] [LawfulMonadLiftT (Except Fault) m] in
theorem uninterrupted_bind {γ γ' : Type} (x : ExceptT Empty m γ)
    (f : γ → ExceptT Empty m γ') :
    uninterrupted (x >>= f) = uninterrupted x >>= fun a => uninterrupted (f a) := by
  unfold uninterrupted
  rw [ExceptT.run_bind, bind_assoc, bind_assoc]
  refine bind_congr fun r => ?_
  cases r with
  | ok a => rw [pure_bind]
  | error e => exact e.elim

omit [MonadLiftT (Except Fault) m] [LawfulMonadLiftT (Except Fault) m] in
theorem uninterrupted_liftM {γ : Type} (x : m γ) :
    uninterrupted (liftM x : ExceptT Empty m γ) = x := by
  show (Except.ok <$> x : m (Except Empty γ)) >>= _ = x
  rw [map_eq_pure_bind, bind_assoc]
  simp only [pure_bind, bind_pure]

theorem cheapestScript_lift (h : P.Fits xs ys) (settings : Settings) :
    cheapestScript (P.lift : Policy m α β δ) settings xs ys =
      pure (P.best settings.tieBreak xs ys) := by
  unfold cheapestScript
  rw [search_lift P settings.tieBreak h Interrupt.passes_never, uninterrupted_pure]

theorem cheapestEdits_lift (h : P.Fits xs ys) (settings : Settings) :
    cheapestEdits (P.lift : Policy m α β δ) settings xs ys =
      pure (P.best settings.tieBreak xs ys).edits := by
  unfold cheapestEdits
  rw [cheapestScript_lift P h, pure_bind]

/-- Without a limit of time the clock is not read. -/
theorem cheapestEditsWithin_lift (h : P.Fits xs ys) (clock : m Instant) :
    cheapestEditsWithin clock (P.lift : Policy m α β δ) { tieBreak := tie } xs ys =
      pure (P.best tie xs ys).edits := by
  unfold cheapestEditsWithin
  have hlimit : ({ tieBreak := tie } : Settings).limit (liftM clock : ExceptT Timeout m Instant) =
      pure none := rfl
  rw [hlimit, pure_bind, search_lift P tie h (Interrupt.passes_deadline_none clock), pure_bind]

end

end TreeDiff
