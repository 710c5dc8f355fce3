import Mathlib.Data.List.Infix
import TreeDiff.Proofs.Grid.Calls
import TreeDiff.Proofs.Grid.Cheapest
import TreeDiff.Proofs.Grid.Paths

/-!
# When costs overflow

A search with comparisons and prices without effects ends in an overflow if and only if some sum of
the recurrence lies above the ceiling, whether or not this sum would be the least of its position.
Otherwise the rows of the search hold the scripts of the recurrence, so that no sum that it compares
differs from the exact one.

The two directions are shown apart. A run that returns has found all sums of all positions below the
ceiling (`Policy.searchRule_fits`); the first sum above it ends the run, and nothing else does
(`Policy.related_checked`).

* `Policy.Overflows`: a sum of the recurrence lies above the ceiling.
* `search_lift_eq_error_iff`: the search overflows if and only if the recurrence does.
* `Policy.ExactRow`: a row of exact scripts, and `exists_row_lift`: all rows of a search.
* `cheapest_overflow_iff`: all calls of the search.
-/

namespace TreeDiff

variable {σ α β δ τ : Type}

/-! ## Sums above the ceiling -/

namespace Policy

/-- A sum of the recurrence lies above the ceiling, whether or not it is the least of its
position. -/
def Overflows (P : Policy Id α β δ) (xs : List α) (ys : List β) : Prop :=
  ∃ xs' ys', xs' <:+ xs ∧ ys' <:+ ys ∧ ∃ c ∈ P.sums xs' ys', P.ceiling < c

variable {P : Policy Id α β δ} {xs : List α} {ys : List β}

theorem not_overflows_iff : ¬ P.Overflows xs ys ↔ P.Fits xs ys := by
  simp only [Overflows, Fits, not_exists, not_and, not_lt]

theorem Fits.mono {xs' : List α} {ys' : List β} (h : P.Fits xs ys) (hx : xs' <:+ xs)
    (hy : ys' <:+ ys) : P.Fits xs' ys' :=
  fun xs'' ys'' hx' hy' => h xs'' ys'' (hx'.trans hx) (hy'.trans hy)

/-- Nothing overflows from a position on, if nothing does there and from the positions that have
lost or gained an element. -/
theorem Fits.of_rests (hsums : ∀ c ∈ P.sums xs ys, c ≤ P.ceiling)
    (hlost : ∀ x xs', xs = x :: xs' → P.Fits xs' ys)
    (hgained : ∀ y ys', ys = y :: ys' → P.Fits xs ys') : P.Fits xs ys := by
  intro xs'' ys'' hx hy
  by_cases hxs : xs'' = xs
  · by_cases hys : ys'' = ys
    · rwa [hxs, hys]
    · cases ys with
      | nil => exact absurd (List.suffix_nil.1 hy) hys
      | cons y ys =>
        have hrest : ys'' <:+ ys := (List.suffix_cons_iff.1 hy).resolve_left hys
        exact hgained y ys rfl xs'' ys'' hx hrest
  · cases xs with
    | nil => exact absurd (List.suffix_nil.1 hx) hxs
    | cons x xs =>
      have hrest : xs'' <:+ xs := (List.suffix_cons_iff.1 hx).resolve_left hxs
      exact hlost x xs rfl xs'' ys'' hrest hy

/-! ## Runs that return -/

theorem prepend_lift_eq_ok_iff {ε : Type} {e : ε} {d : δ} {s t : Script δ} :
    (P.lift : Policy (Attempt σ) α β δ).prepend ⟨e, d, (P.cost d).run⟩ s = .ok t ↔
      (P.cost d).run + s.total ≤ P.ceiling ∧ P.extend d s = t :=
  Script.prepend_eq_ok_iff

theorem compare_lift_eq_ok_iff {x : α} {y : β} {o : Option δ} {s s' : σ} :
    (P.lift : Policy (Attempt σ) α β δ).compare x y s = .ok o s' ↔
      (P.compare x y).run = o ∧ s = s' := by
  constructor
  · rintro ⟨⟩
    exact ⟨rfl, rfl⟩
  · rintro ⟨rfl, rfl⟩
    rfl

/-- A position that gets a script gets the one of the recurrence, and has found all its sums below
the ceiling. -/
theorem best_of_cell {tie : TieBreak} {x : α} {xs : List α} {y : β} {ys : List β} {s s' : σ}
    {script : Script δ}
    (h : (P.lift : Policy (Attempt σ) α β δ).cell tie ⟨x, P.delete x, (P.cost (P.delete x)).run⟩
      ⟨y, P.insert y, (P.cost (P.insert y)).run⟩ (P.best tie xs (y :: ys))
      (P.best tie (x :: xs) ys) (P.best tie xs ys) s = .ok script s') :
    script = P.best tie (x :: xs) (y :: ys) ∧
      ∀ c ∈ P.sums (x :: xs) (y :: ys), c ≤ P.ceiling := by
  obtain ⟨viaDelete, viaInsert, hdelete, hinsert, hpick⟩ := cell_cases h
  obtain ⟨hlost, rfl⟩ := prepend_lift_eq_ok_iff.1 hdelete
  obtain ⟨hgained, rfl⟩ := prepend_lift_eq_ok_iff.1 hinsert
  rw [total_best] at hlost hgained
  rw [best_cons_cons, sums]
  rcases hpick with ⟨hcompare, rfl⟩ | ⟨d, c, s₁, viaMatch, hcompare, hcost, hmatch, rfl⟩
  · obtain ⟨hnone, -⟩ := compare_lift_eq_ok_iff.1 hcompare
    rw [hnone]
    exact ⟨rfl, by simp [hlost, hgained]⟩
  · obtain ⟨hsome, -⟩ := compare_lift_eq_ok_iff.1 hcompare
    cases hcost
    obtain ⟨hboth, rfl⟩ := Script.prepend_eq_ok_iff.1 hmatch
    have hle : (P.cost d).run + P.optimum xs ys ≤ P.ceiling := by
      rw [← P.total_best tie]
      exact hboth
    rw [hsome]
    exact ⟨rfl, by simp [hlost, hgained, hle]⟩

variable (P) in
/-- Every position with a script has the script of the recurrence, and no sum has overflown from it
on. -/
theorem searchRule_fits (tie : TieBreak) (interrupt : Interrupt (Attempt σ) τ) (xs : List α)
    (ys : List β) :
    SearchRule ((Attempt.returning σ).exceptT τ) P.lift P.lift tie interrupt interrupt xs ys
      (fun d c => c = (P.cost d).run)
      (fun xs' ys' s => s = P.best tie xs' ys' ∧ P.Fits xs' ys') where
  delete_eq := rfl
  insert_eq := rfl
  check _ _ _ _ _ _ _ _ := trivial
  loss x _ := by
    rintro s _ s' ⟨⟩ c ⟨⟩
    rfl
  gain y _ := by
    rintro s _ s' ⟨⟩ c ⟨⟩
    rfl
  done := ⟨by rw [best], .of_rests (by simp [sums]) (by simp) (by simp)⟩
  delete := by
    rintro x xs' c s hx rfl ⟨rfl, hfits⟩
    refine Attempt.rel_except _ (Attempt.returning_throw _) fun t ht => ?_
    obtain ⟨hle, rfl⟩ := Script.prepend_eq_ok_iff.1 ht
    rw [total_best] at hle
    refine ⟨by rw [best]; rfl, .of_rests (fun d hd => ?_) ?_ (by simp)⟩
    · cases List.mem_singleton.1 hd
      exact hle
    · rintro _ _ ⟨⟩
      exact hfits
  insert := by
    rintro y ys' c s hy rfl ⟨rfl, hfits⟩
    refine Attempt.rel_except _ (Attempt.returning_throw _) fun t ht => ?_
    obtain ⟨hle, rfl⟩ := Script.prepend_eq_ok_iff.1 ht
    rw [total_best] at hle
    refine ⟨by rw [best]; rfl, .of_rests (fun d hd => ?_) (by simp) ?_⟩
    · cases List.mem_singleton.1 hd
      exact hle
    · rintro _ _ ⟨⟩
      exact hfits
  cell := by
    rintro x xs' y ys' c c' lost gained both hx hy rfl rfl ⟨rfl, hlost⟩ ⟨rfl, hgained⟩ ⟨rfl, -⟩
    refine Attempt.returning_liftM fun s script s' hrun => ?_
    obtain ⟨hbest, hsums⟩ := best_of_cell hrun
    refine ⟨hbest, .of_rests hsums ?_ ?_⟩
    · rintro _ _ ⟨⟩
      exact hlost
    · rintro _ _ ⟨⟩
      exact hgained

/-! ## Runs that do not return -/

end Policy

/-- The simulation of computations that leave the state as it is, and return an answer or
overflow. -/
def Attempt.checked (τ σ : Type) : Simulation (ExceptT τ (Attempt σ)) (ExceptT τ (Attempt σ)) where
  Rel Q x _ := ∀ s, (∃ a, x.run s = .ok (.ok a) s ∧ Q a) ∨ x.run s = .error .costOverflow s
  pure h _ := .inl ⟨_, rfl, h⟩
  bind := by
    intro _ _ Q R x y f g hx hf s
    rw [run_bind]
    rcases hx s with ⟨a, hrun, ha⟩ | hrun
    · rw [hrun]
      exact hf a ha s
    · rw [hrun]
      exact .inr rfl

section

variable (P : Policy Id α β δ) (tie : TieBreak) {interrupt : Interrupt (Attempt σ) τ}
  (hpass : interrupt.Passes) {xs : List α} {ys : List β} {s : σ}
include hpass

/-- Sums above the ceiling are all that can end a search without effects. -/
theorem related_checked (xs : List α) (ys : List β) :
    Policy.Related (Attempt.checked τ σ) P.lift P.lift interrupt interrupt (fun _ _ _ => True) xs
      ys where
  delete_eq := rfl
  insert_eq := rfl
  check solved total := by
    rw [hpass.check_eq]
    exact (Attempt.checked τ σ).pure trivial
  compare x _ y _ s := .inl ⟨_, rfl, fun _ _ => trivial⟩
  cost d s := .inl ⟨_, rfl, trivial⟩
  prepend d c t s := by
    cases hprepend : Script.prepend (P.lift : Policy (Attempt σ) α β δ).ceiling d c t with
    | ok r => exact .inl ⟨r, rfl, Script.edits_of_prepend hprepend⟩
    | error e =>
      obtain ⟨-, rfl⟩ := Script.prepend_eq_error_iff.1 hprepend
      exact .inr rfl

/-- The search overflows if and only if the recurrence does. -/
theorem search_lift_eq_error_iff :
    (search P.lift tie interrupt xs ys).run s = .error .costOverflow s ↔ P.Overflows xs ys := by
  constructor
  · intro h
    by_contra hfits
    rw [search_lift P tie (Policy.not_overflows_iff.1 hfits) hpass] at h
    cases h
  · rintro hover
    have hchecked := (related_checked P hpass xs ys).search tie
    rcases hchecked s with ⟨script, hrun, -⟩ | hrun
    · -- a run that returned would have found all sums below the ceiling
      have hfits := ((P.searchRule_fits tie interrupt xs ys).search s _ s hrun script rfl).2
      exact absurd hover (Policy.not_overflows_iff.2 hfits)
    · exact hrun

end

/-! ## Runs with exact rows -/

namespace Policy

section

variable (P : Policy Id α β δ) {m : Type → Type} [Monad m] [LawfulMonad m]

/-- Elements with the edits that `edit` gives them and the prices of these. -/
def priced {ε : Type} (edit : ε → δ) (l : List ε) : List (Priced ε δ) :=
  l.map fun e => ⟨e, edit e, (P.cost (edit e)).run⟩

theorem map_item_priced {ε : Type} (edit : ε → δ) (l : List ε) :
    (P.priced edit l).map Priced.item = l := by
  simp [priced, Function.comp_def]

theorem length_priced {ε : Type} (edit : ε → δ) (l : List ε) :
    (P.priced edit l).length = l.length := List.length_map _

theorem of_mem_priced {ε : Type} {edit : ε → δ} {l : List ε} :
    ∀ p ∈ P.priced edit l, p.Of edit fun d c => c = (P.cost d).run := by
  intro p hp
  obtain ⟨e, -, rfl⟩ := List.mem_map.1 hp
  exact ⟨e, _, rfl, rfl⟩

theorem deletions_lift (xs : List α) :
    (P.lift : Policy m α β δ).deletions xs = pure (P.priced P.delete xs) := by
  simp [deletions, priced, lift]

theorem insertions_lift (ys : List β) :
    (P.lift : Policy m α β δ).insertions ys = pure (P.priced P.insert ys) := by
  simp [insertions, priced, lift]

end

/-- The row for the suffix `xs` of the first sequence holds the scripts of the recurrence for all
suffixes of the second one, with annotations that are exact and not above the ceiling. -/
structure ExactRow (P : Policy Id α β δ) (tie : TieBreak) (xs : List α) (ys : List β)
    (row : Row δ) : Prop where
  scripts : row.scripts = ys.tails.map (P.best tie xs)
  totals : row.scripts.map Script.total = ys.tails.map (P.optimum xs)
  exact : ∀ s ∈ row.scripts, P.Exact s
  fits : ∀ s ∈ row.scripts, ∀ c ∈ s.cumulative, c ≤ P.ceiling

variable {P : Policy Id α β δ} {xs : List α} {ys : List β}

/-- The annotations of the recurrence are sums of the recurrence. -/
theorem Fits.cumulative_best_le (h : P.Fits xs ys) (tie : TieBreak) :
    ∀ c ∈ (P.best tie xs ys).cumulative, c ≤ P.ceiling := by
  have hextend : ∀ (d : δ) (s : Script δ), (P.cost d).run + s.total ≤ P.ceiling →
      (∀ c ∈ s.cumulative, c ≤ P.ceiling) → ∀ c ∈ (P.extend d s).cumulative, c ≤ P.ceiling := by
    intro d s hd hs c hc
    rcases List.mem_cons.1 hc with rfl | hc
    · exact hd
    · exact hs c hc
  induction xs, ys using best.induct with
  | case1 =>
    rw [best]
    simp [Script.cumulative, Script.empty]
  | case2 x xs ih =>
    rw [best]
    refine hextend _ _ ?_ (ih (h.mono (List.suffix_cons x xs) List.suffix_rfl))
    rw [total_best]
    exact h.delete_le List.suffix_rfl List.suffix_rfl
  | case3 y ys ih =>
    rw [best]
    refine hextend _ _ ?_ (ih (h.mono List.suffix_rfl (List.suffix_cons y ys)))
    rw [total_best]
    exact h.insert_le List.suffix_rfl List.suffix_rfl
  | case4 x xs y ys ih₁ ih₂ ih₃ =>
    have hx := List.suffix_cons x xs
    have hy := List.suffix_cons y ys
    rw [best_cons_cons]
    refine tie.pick_ind (p := fun s => ∀ c ∈ s.cumulative, c ≤ P.ceiling) ?_ ?_ fun s hs => ?_
    · refine hextend _ _ ?_ (ih₁ (h.mono hx List.suffix_rfl))
      rw [total_best]
      exact h.delete_le List.suffix_rfl List.suffix_rfl
    · refine hextend _ _ ?_ (ih₂ (h.mono List.suffix_rfl hy))
      rw [total_best]
      exact h.insert_le List.suffix_rfl List.suffix_rfl
    · obtain ⟨d, hd, rfl⟩ := Option.map_eq_some_iff.1 hs
      refine hextend _ _ ?_ (ih₃ (h.mono hx hy))
      rw [total_best]
      exact h.match_le List.suffix_rfl List.suffix_rfl hd

end Policy

section

variable (P : Policy Id α β δ) (tie : TieBreak) {m : Type → Type} [Monad m] [LawfulMonad m]
  [MonadLiftT (Except Fault) m] [LawfulMonadLiftT (Except Fault) m] {interrupt : Interrupt m τ}
  (hpass : interrupt.Passes) {xs xs' : List α} {ys : List β}

/-- The search on `xs ++ xs'` and `ys` builds `row` for the suffix `xs'`, and goes on from it. -/
structure Policy.Builds (interrupt : Interrupt m τ) (xs xs' : List α) (ys : List β) (row : Row δ) :
    Prop where
  built : P.lift.topRow tie interrupt (((xs ++ xs').length + 1) * (ys.length + 1))
    (P.priced P.delete xs') (P.priced P.insert ys) = pure row
  rest : search P.lift tie interrupt (xs ++ xs') ys = (do
    let top ← (P.priced P.delete xs).foldrM (P.lift.nextRow tie interrupt
      (((xs ++ xs').length + 1) * (ys.length + 1)) (P.priced P.insert ys)) row
    return top.first)

include hpass in
/-- If nothing overflows, the rows for all suffixes of the first sequence are exact. -/
theorem exists_row_lift (h : P.Fits (xs ++ xs') ys) :
    ∃ row, P.ExactRow tie xs' ys row ∧ P.Builds tie interrupt xs xs' ys row := by
  have hrule := (searchRule_lift P tie h hpass).gridRule.rowRule
    (P.map_item_priced P.delete (xs ++ xs')) P.of_mem_priced (P.map_item_priced P.insert ys)
    P.of_mem_priced
  have hpriced : P.priced P.delete (xs ++ xs') = P.priced P.delete xs ++ P.priced P.delete xs' :=
    List.map_append
  have hsuffix : P.priced P.delete xs' <:+ P.priced P.delete (xs ++ xs') :=
    hpriced ▸ List.suffix_append _ _
  obtain ⟨row, hat, hrow⟩ := hrule.row hsuffix
  rw [P.length_priced, P.length_priced] at hrow
  have hscripts : row.scripts = ys.tails.map (P.best tie xs') := by
    have hmap := Pattern.Along.eq_map_tails hat.scripts fun qs s hs => hs
    rw [hmap, P.map_item_priced]
    conv_rhs => rw [← P.map_item_priced P.insert ys, List.map_tails, List.map_map]
    rfl
  have hmem : ∀ s ∈ row.scripts, ∃ ys', ys' <:+ ys ∧ P.best tie xs' ys' = s := by
    intro s hs
    rw [hscripts] at hs
    obtain ⟨ys', hys', hbest⟩ := List.mem_map.1 hs
    exact ⟨ys', (List.mem_tails _ _).1 hys', hbest⟩
  refine ⟨row, ⟨hscripts, ?_, fun s hs => ?_, fun s hs => ?_⟩, hrow, ?_⟩
  · rw [hscripts, List.map_map]
    exact List.map_congr_left fun ys' _ => P.total_best tie xs' ys'
  · obtain ⟨ys', -, rfl⟩ := hmem s hs
    exact P.exact_best tie xs' ys'
  · obtain ⟨ys', hys', rfl⟩ := hmem s hs
    exact (h.mono (List.suffix_append xs xs') hys').cumulative_best_le tie
  · rw [search_eq, P.deletions_lift, P.insertions_lift, liftM_pure, liftM_pure, pure_bind,
      pure_bind, hpriced, Policy.topRow_append, hrow, pure_bind]

end

/-! ## Calls -/

/-- **A search overflows if and only if a sum of the recurrence does**, whether or not this sum is
the least of its position. Otherwise it returns the script of the recurrence, by way of rows that
hold the exact scripts. -/
theorem cheapest_overflow_iff (P : Policy Id α β δ) (clock : Attempt σ Instant)
    (settings : Settings) (xs : List α) (ys : List β) (s : σ) :
    ((cheapestScript P.lift settings xs ys : Attempt σ (Script δ)) s = .error .costOverflow s ↔
      P.Overflows xs ys) ∧
    ((cheapestEdits P.lift settings xs ys : Attempt σ (List δ)) s = .error .costOverflow s ↔
      P.Overflows xs ys) ∧
    ((cheapestEditsWithin clock P.lift { settings with deadline := none } xs ys).run s =
      .error .costOverflow s ↔ P.Overflows xs ys) ∧
    (¬ P.Overflows xs ys →
      (cheapestScript P.lift settings xs ys : Attempt σ (Script δ)) s =
        .ok (P.best settings.tieBreak xs ys) s ∧
      ∀ xs₁ xs', xs₁ ++ xs' = xs → ∃ row, P.ExactRow settings.tieBreak xs' ys row ∧
        P.Builds settings.tieBreak (.never : Interrupt (Attempt σ) Empty) xs₁ xs' ys row) := by
  have hscript : (cheapestScript P.lift settings xs ys : Attempt σ (Script δ)) s =
      .error .costOverflow s ↔ P.Overflows xs ys :=
    uninterrupted_eq_error_iff.trans
      (search_lift_eq_error_iff P settings.tieBreak Interrupt.passes_never)
  refine ⟨hscript, cheapestEdits_eq_error_iff.trans hscript,
    cheapestEditsWithin_eq_error_iff.trans (search_lift_eq_error_iff P settings.tieBreak
      (Interrupt.passes_deadline_none clock)), fun hover => ?_⟩
  have hfits := Policy.not_overflows_iff.1 hover
  refine ⟨by rw [cheapestScript_lift P hfits]; rfl, ?_⟩
  rintro xs₁ xs' rfl
  exact exists_row_lift P settings.tieBreak Interrupt.passes_never hfits

/-- With 1 as the ceiling, two deletions overflow. With the ceiling in use, nothing does. -/
theorem cheapest_overflow_iff_copying :
    (cheapestScript { Policy.copying Nat with ceiling := 1 }.lift {} [1, 2] [3] :
        Attempt Instant _) ⟨0⟩ = .error .costOverflow ⟨0⟩ ∧
      (cheapestScript (Policy.copying Nat).lift {} [1, 2, 3] [2, 4] : Attempt Instant _) ⟨0⟩ =
        .ok ((Policy.copying Nat).best .edits [1, 2, 3] [2, 4]) ⟨0⟩ ∧
      ((Policy.copying Nat).best .edits [1, 2, 3] [2, 4]).total = 3 := by
  have hfits : ¬ (Policy.copying Nat).Overflows [1, 2, 3] [2, 4] :=
    Policy.not_overflows_iff.2 (Policy.fits_copying (by decide))
  refine ⟨(cheapest_overflow_iff _ get {} [1, 2] [3] ⟨0⟩).1.2 ?_,
    ((cheapest_overflow_iff _ get {} [1, 2, 3] [2, 4] ⟨0⟩).2.2.2 hfits).1, by decide +kernel⟩
  refine ⟨[1, 2], [], List.suffix_rfl, List.nil_suffix, 2, ?_, by decide⟩
  simp [Policy.sums, Policy.optimum, Policy.copying]

end TreeDiff
