import Mathlib.Data.List.Infix
import TreeDiff.Proofs.Grid.Cell

/-!
# What the rows of a search keep

When all elements have their prices, the search builds row upon row. What is true of the script of
every position, and of the scripts of every two neighbouring positions, is shown from the positions
it may move to, once and for all: a `RowRule` gathers the steps, and `RowRule.row` is the
conclusion for every row. The rule speaks of two searches at once, in two monads and up to two
ceilings. A property of the state may change from position to position.

* `Policy.topRow`: the search after its elements have got their prices (`search_eq`). It goes
  through the row for every suffix of the first sequence (`Policy.topRow_append`).
* `Pattern`: a property of the scripts of positions, with relations between neighbours.
* `Pattern.Square`: the pattern at the three positions that a position may move to.
  `Pattern.Continues`: the pattern at the position itself.
* `Pattern.Along`, `Pattern.At`: the pattern along a row. If the pattern determines the scripts, the
  row is known (`Pattern.Along.eq_map_tails`).
* `RowRule`: one hypothesis for every kind of step. `RowRule.nextCell`, `RowRule.cells` and
  `RowRule.nextRow` say what one position, a part of a row and one row keep.
-/

namespace TreeDiff

variable {m m₁ m₂ : Type → Type} {α β δ κ τ τ₁ τ₂ : Type}

/-! ## The search on elements with prices -/

section

variable [Monad m] [LawfulMonad m] [MonadLiftT (Except Fault) m]

/-- The row for the whole first sequence, when the elements of both sequences have their prices. -/
def Policy.topRow (P : Policy m α β δ) (tie : TieBreak) (interrupt : Interrupt m τ) (total : Nat)
    (ps : List (Priced α δ)) (qs : List (Priced β δ)) : ExceptT τ m (Row δ) := do
  let border ← liftM (P.border qs)
  ps.foldrM (P.nextRow tie interrupt total qs) border

/-- The row for the whole first sequence is built upon the row for each of its suffixes. -/
theorem Policy.topRow_append (P : Policy m α β δ) (tie : TieBreak) (interrupt : Interrupt m τ)
    (total : Nat) (ps ps' : List (Priced α δ)) (qs : List (Priced β δ)) :
    P.topRow tie interrupt total (ps ++ ps') qs =
      P.topRow tie interrupt total ps' qs >>= ps.foldrM (P.nextRow tie interrupt total qs) := by
  unfold topRow
  simp only [List.foldrM_append, bind_assoc]

theorem search_eq (P : Policy m α β δ) (tie : TieBreak) (interrupt : Interrupt m τ) (xs : List α)
    (ys : List β) : search P tie interrupt xs ys = (do
      let ps ← P.deletions xs
      let qs ← P.insertions ys
      let row ← P.topRow tie interrupt ((xs.length + 1) * (ys.length + 1)) ps qs
      return row.first) := by
  unfold search Policy.topRow
  simp only [bind_assoc]

end

/-! ## Patterns along a row -/

/-- What is asked of the scripts of the positions. Positions stand for the suffixes of the two
sequences, whose elements have their prices. -/
structure Pattern (α β δ : Type) where
  /-- A script and its position. -/
  here : List (Priced α δ) → List (Priced β δ) → Script δ → Prop
  /-- The scripts of two positions of a row, of which the second has gained the element `y`. -/
  beside : (xs : List (Priced α δ)) → (y : Priced β δ) → (ys : List (Priced β δ)) →
    Script δ → Script δ → Prop := fun _ _ _ _ _ => True
  /-- The scripts of two positions of neighbouring rows, of which the second has lost the element
  `x`. -/
  above : (x : Priced α δ) → (xs : List (Priced α δ)) → (ys : List (Priced β δ)) →
    Script δ → Script δ → Prop := fun _ _ _ _ _ => True

namespace Pattern

variable {p : Pattern α β δ} {x : Priced α δ} {xs : List (Priced α δ)} {y : Priced β δ}
  {ys : List (Priced β δ)} {s t lost gained both : Script δ} {row : Row δ}

/-- The pattern at the positions that have lost `x`, gained `y`, and both. -/
structure Square (p : Pattern α β δ) (x : Priced α δ) (xs : List (Priced α δ)) (y : Priced β δ)
    (ys : List (Priced β δ)) (lost gained both : Script δ) : Prop where
  here_lost : p.here xs (y :: ys) lost
  here_gained : p.here (x :: xs) ys gained
  here_both : p.here xs ys both
  beside : p.beside xs y ys lost both
  above : p.above x xs ys gained both

/-- The pattern at the position with the heads `x` and `y`, and between it and its neighbours. -/
structure Continues (p : Pattern α β δ) (x : Priced α δ) (xs : List (Priced α δ)) (y : Priced β δ)
    (ys : List (Priced β δ)) (lost gained s : Script δ) : Prop where
  here : p.here (x :: xs) (y :: ys) s
  beside : p.beside (x :: xs) y ys s gained
  above : p.above x xs (y :: ys) s lost

/-- The scripts, one for each suffix of `ys`, follow the pattern along the row for `xs`. -/
inductive Along (p : Pattern α β δ) (xs : List (Priced α δ)) :
    List (Priced β δ) → List (Script δ) → Prop
  | corner {s : Script δ} : p.here xs [] s → Along p xs [] [s]
  | next {y : Priced β δ} {ys : List (Priced β δ)} {s t : Script δ} {rest : List (Script δ)} :
    p.here xs (y :: ys) s → p.beside xs y ys s t → Along p xs ys (t :: rest) →
    Along p xs (y :: ys) (s :: t :: rest)

theorem Along.first {rest : List (Script δ)} (h : p.Along xs ys (s :: rest)) : p.here xs ys s := by
  cases h <;> assumption

/-- The last script of a row is the one for the empty suffix. -/
theorem Along.last {rest : List (Script δ)} (h : p.Along xs ys (s :: rest)) :
    p.here xs [] (rest.getLastD s) := by
  induction ys generalizing s rest with
  | nil =>
    cases h with
    | corner hs => exact hs
  | cons y ys ih =>
    cases h with
    | next _ _ hrest =>
      rw [List.getLastD_cons]
      exact ih hrest

/-- A pattern that determines the scripts determines the row. -/
theorem Along.eq_map_tails {scripts : List (Script δ)} {f : List (Priced β δ) → Script δ}
    (h : p.Along xs ys scripts) (hf : ∀ ys s, p.here xs ys s → s = f ys) :
    scripts = ys.tails.map f := by
  induction h with
  | corner hs => rw [hf _ _ hs]; rfl
  | next hs _ _ ih => rw [hf _ _ hs, ih, List.tails, List.map_cons]

/-- The row stands at the suffixes `xs` and `ys` in a grid with `columns` columns: its scripts
follow the pattern, and it counts the positions up to this one. -/
structure At (p : Pattern α β δ) (columns : Nat) (xs : List (Priced α δ)) (ys : List (Priced β δ))
    (row : Row δ) : Prop where
  scripts : p.Along xs ys row.scripts
  solved : row.solved = xs.length * (columns + 1) + (ys.length + 1)

theorem At.first {columns : Nat} (h : p.At columns xs ys row) : p.here xs ys row.first :=
  Along.first h.scripts

theorem At.push {columns : Nat} (h : p.At columns xs ys row) (hs : p.here xs (y :: ys) s)
    (hbeside : p.beside xs y ys s row.first) : p.At columns xs (y :: ys) (row.push s) where
  scripts := .next hs hbeside h.scripts
  solved := by
    simp only [Row.push, h.solved, List.length_cons]
    omega

end Pattern

/-! ## The rule -/

variable [Monad m₁] [LawfulMonad m₁] [MonadLiftT (Except Fault) m₁]
  [LawfulMonadLiftT (Except Fault) m₁] [Monad m₂] [LawfulMonad m₂] [MonadLiftT (Except Fault) m₂]
  [LawfulMonadLiftT (Except Fault) m₂]

/-- The steps of two searches on elements `ps` and `qs` with their prices are related, and continue
the pattern `p`. The state has the property `J` of the position that has been visited last; before
the first position this is `J [] qs`. -/
structure RowRule (T : Tracking κ (ExceptT τ₁ m₁) (ExceptT τ₂ m₂)) (P : Policy m₁ α β δ)
    (P' : Policy m₂ α β δ) (tie : TieBreak) (interrupt : Interrupt m₁ τ₁)
    (interrupt' : Interrupt m₂ τ₂) (ps : List (Priced α δ)) (qs : List (Priced β δ))
    (p : Pattern α β δ) (J : List (Priced α δ) → List (Priced β δ) → κ → Prop) : Prop where
  /-- The position at which both sequences are used up. -/
  done : p.here [] [] .empty
  /-- A position at which the second sequence is used up. -/
  delete : ∀ {x xs s}, x :: xs <:+ ps → p.here xs [] s →
    (T.comap (Except Fault) (Except Fault)).Rel (J xs qs)
      (fun t => p.here (x :: xs) [] t ∧ p.above x xs [] t s) (J (x :: xs) [])
      (P.prepend x s) (P'.prepend x s)
  /-- A position at which the first sequence is used up. -/
  insert : ∀ {y ys s}, y :: ys <:+ qs → p.here [] ys s →
    (T.comap (Except Fault) (Except Fault)).Rel (J [] qs)
      (fun t => p.here [] (y :: ys) t ∧ p.beside [] y ys t s) (J [] qs)
      (P.prepend y s) (P'.prepend y s)
  /-- A position with two heads, with the question before it. -/
  position : ∀ {x xs y ys lost gained both}, x :: xs <:+ ps → y :: ys <:+ qs →
    p.Square x xs y ys lost gained both → ∀ solved total,
    solved = (xs.length + 1) * (qs.length + 1) + (ys.length + 1) →
    total = (ps.length + 1) * (qs.length + 1) →
    T.Rel (J (x :: xs) ys) (p.Continues x xs y ys lost gained) (J (x :: xs) (y :: ys))
      (do
        interrupt.check solved total
        P.cell tie x y lost gained both)
      (do
        interrupt'.check solved total
        P'.cell tie x y lost gained both)

namespace RowRule

variable {T : Tracking κ (ExceptT τ₁ m₁) (ExceptT τ₂ m₂)} {P : Policy m₁ α β δ}
  {P' : Policy m₂ α β δ} {tie : TieBreak} {interrupt : Interrupt m₁ τ₁}
  {interrupt' : Interrupt m₂ τ₂} {ps : List (Priced α δ)} {qs : List (Priced β δ)}
  {p : Pattern α β δ} {J : List (Priced α δ) → List (Priced β δ) → κ → Prop}
  (h : RowRule T P P' tie interrupt interrupt' ps qs p J)
include h

theorem border :
    (T.comap (Except Fault) (Except Fault)).Rel (J [] qs) (p.At qs.length [] qs) (J [] qs)
      (P.border qs) (P'.border qs) := by
  refine Tracking.foldrM (T.comap (Except Fault) (Except Fault)) (I := p.At qs.length [])
    (J := fun _ => J [] qs) qs ⟨.corner h.done, by simp [Row.start]⟩ fun y ys row hy hrow => ?_
  exact Tracking.bind _ (h.insert hy hrow.first) fun s hs =>
    Tracking.pure _ (hrow.push hs.1 hs.2) fun _ hk => hk

/-- One position of a row: the row grows by a script that continues the pattern. -/
theorem nextCell {x : Priced α δ} {xs : List (Priced α δ)} {y : Priced β δ} {ys : List (Priced β δ)}
    {lost both : Script δ} {row : Row δ} (hx : x :: xs <:+ ps) (hy : y :: ys <:+ qs)
    (hlost : p.here xs (y :: ys) lost) (hboth : p.here xs ys both)
    (hbeside : p.beside xs y ys lost both) (hrow : p.At qs.length (x :: xs) ys row)
    (habove : p.above x xs ys row.first both) :
    T.Rel (J (x :: xs) ys)
      (fun r => p.At qs.length (x :: xs) (y :: ys) r ∧ p.above x xs (y :: ys) r.first lost)
      (J (x :: xs) (y :: ys))
      (P.nextCell tie interrupt ((ps.length + 1) * (qs.length + 1)) x (y, lost, both) row)
      (P'.nextCell tie interrupt' ((ps.length + 1) * (qs.length + 1)) x (y, lost, both) row) := by
  rw [Policy.nextCell_eq, Policy.nextCell_eq, ← bind_assoc, ← bind_assoc]
  have hsquare : p.Square x xs y ys lost row.first both :=
    ⟨hlost, hrow.first, hboth, hbeside, habove⟩
  refine T.bind (h.position hx hy hsquare row.solved _ hrow.solved rfl) fun s hs => ?_
  exact T.pure ⟨hrow.push hs.here hs.beside, hs.above⟩ fun _ hk => hk

/-- The positions of a row, from the one for the empty suffix of the second sequence on. -/
theorem cells {x : Priced α δ} {xs : List (Priced α δ)} (hx : x :: xs <:+ ps) {start : Row δ}
    (hstart : p.At qs.length (x :: xs) [] start) {ys : List (Priced β δ)} {b : Script δ}
    {rest : List (Script δ)} (hy : ys <:+ qs) (hbelow : p.Along xs ys (b :: rest))
    (habove : p.above x xs [] start.first (rest.getLastD b)) :
    T.Rel (J (x :: xs) [])
      (fun row => p.At qs.length (x :: xs) ys row ∧ p.above x xs ys row.first b) (J (x :: xs) ys)
      ((ys.zip ((b :: rest).zip rest)).foldrM
        (P.nextCell tie interrupt ((ps.length + 1) * (qs.length + 1)) x) start)
      ((ys.zip ((b :: rest).zip rest)).foldrM
        (P'.nextCell tie interrupt' ((ps.length + 1) * (qs.length + 1)) x) start) := by
  induction ys generalizing b rest with
  | nil =>
    cases hbelow with
    | corner _ => exact T.pure ⟨hstart, habove⟩ fun _ hk => hk
  | cons y ys ih =>
    cases hbelow with
    | @next _ _ lost both rest hlost hbeside hrest =>
      rw [List.getLastD_cons] at habove
      have hrow := ih ((List.suffix_cons y ys).trans hy) hrest habove
      simp only [List.zip_cons_cons, List.foldrM_cons] at hrow ⊢
      exact T.bind hrow fun row hrow =>
        h.nextCell hx hy hlost hrest.first hbeside hrow.1 hrow.2

/-- One row, from the row below it. -/
theorem nextRow {x : Priced α δ} {xs : List (Priced α δ)} {below : Row δ} (hx : x :: xs <:+ ps)
    (hbelow : p.At qs.length xs qs below) :
    T.Rel (J xs qs) (p.At qs.length (x :: xs) qs) (J (x :: xs) qs)
      (P.nextRow tie interrupt ((ps.length + 1) * (qs.length + 1)) qs x below)
      (P'.nextRow tie interrupt' ((ps.length + 1) * (qs.length + 1)) qs x below) := by
  unfold Policy.nextRow
  refine T.bind (h.delete hx (Pattern.Along.last hbelow.scripts)) fun corner hcorner => ?_
  have hstart : p.At qs.length (x :: xs) [] (.start corner below.solved) := by
    refine ⟨.corner hcorner.1, ?_⟩
    simp only [Row.start, hbelow.solved, List.length_cons, List.length_nil, Nat.succ_mul]
  have hrow := h.cells hx hstart List.suffix_rfl hbelow.scripts hcorner.2
  exact Tracking.mono _ hrow fun row hrow => hrow.1

/-- **The rows of the two searches are the same, and follow the pattern**: the row for every suffix
of the first sequence does. -/
theorem row {ps' : List (Priced α δ)} (hps : ps' <:+ ps) :
    T.Rel (J [] qs) (p.At qs.length ps' qs) (J ps' qs)
      (P.topRow tie interrupt ((ps.length + 1) * (qs.length + 1)) ps' qs)
      (P'.topRow tie interrupt' ((ps.length + 1) * (qs.length + 1)) ps' qs) := by
  unfold Policy.topRow
  refine T.bind h.border fun border hborder => ?_
  exact Tracking.foldrM T (I := fun xs => p.At qs.length xs qs) (J := fun xs => J xs qs) ps' hborder
    fun x xs below hx hbelow => h.nextRow (hx.trans hps) hbelow

theorem topRow :
    T.Rel (J [] qs) (p.At qs.length ps qs) (J ps qs)
      (P.topRow tie interrupt ((ps.length + 1) * (qs.length + 1)) ps qs)
      (P'.topRow tie interrupt' ((ps.length + 1) * (qs.length + 1)) ps qs) :=
  h.row List.suffix_rfl

end RowRule

end TreeDiff
