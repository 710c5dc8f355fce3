import TreeDiff.Proofs.Grid.Overflow

/-!
# Longest common subsequences

With copies of equal elements for nothing, and losses and gains at a price of one, a script is the
cheaper the more it copies. What it copies is a common subsequence of the two sequences, and every
common subsequence is copied by some path, so the cheapest scripts copy the longest ones.

* `commonLengths`: the lengths of the common subsequences of two sequences.
* `Policy.copied`, `Policy.CopiesLongest`: what a script copies, and the scripts that copy a longest
  common subsequence.
* `Policy.Path.cost_add_copied`, `Policy.Path.copied_sublist`: the cost and the copies of a path.
* `Policy.optimum_add_length_le`: a path that copies a given common subsequence.
* `cheapestEdits_copiesLongest`: the script that is returned.
-/

open scoped List

namespace TreeDiff

variable {α : Type}

/-- The lengths of the common subsequences of two sequences. -/
def commonLengths (xs ys : List α) : Set Nat := {n | ∃ l, l <+ xs ∧ l <+ ys ∧ l.length = n}

namespace Policy

/-- The element that an edit copies. -/
def copied? : Option α × Option α → Option α
  | (some x, some _) => some x
  | _ => none

/-- The elements that are copied, in order. -/
def copied (edits : List (Option α × Option α)) : List α := edits.filterMap copied?

variable [DecidableEq α] {xs ys : List α} {n : Nat}

/-- The sum of the costs of the edits. -/
def costOfAll (edits : List (Option α × Option α)) : Nat :=
  (edits.map fun d => ((copying α).cost d).run).sum

/-- The edits copy a longest common subsequence, of the length `n`, and pay for all other elements. -/
structure CopiesLongest (xs ys : List α) (n : Nat) (edits : List (Option α × Option α)) : Prop where
  greatest : IsGreatest (commonLengths xs ys) n
  cost : costOfAll edits + 2 * n = xs.length + ys.length
  copies : edits.countP (fun d => (copied? d).isSome) = n
  length : (copied edits).length = n
  left : copied edits <+ xs
  right : copied edits <+ ys

/-! ## The copies of a path -/

theorem eq_copy_of_compare {x y : α} {d : Option α × Option α}
    (h : ((copying α).compare x y).run = some d) : y = x ∧ d = (some x, some x) := by
  simp only [copying, Id.run_pure, Option.ite_none_right_eq_some, Option.some.injEq] at h
  obtain ⟨rfl, rfl⟩ := h
  exact ⟨rfl, rfl⟩

/-- What a path does not copy, it pays for. -/
theorem Path.cost_add_copied {steps : List (Step (Option α × Option α))}
    (h : (copying α).Path xs ys steps) :
    (copying α).pathCost steps + 2 * (copied (steps.map Step.edit)).length =
      xs.length + ys.length := by
  induction h with
  | done => rfl
  | @delete xs ys steps x _ ih =>
    change 1 + (copying α).pathCost steps + 2 * (copied (steps.map Step.edit)).length =
      xs.length + 1 + ys.length
    omega
  | @insert xs ys steps y _ ih =>
    change 1 + (copying α).pathCost steps + 2 * (copied (steps.map Step.edit)).length =
      xs.length + (ys.length + 1)
    omega
  | @both xs ys steps x y d hd _ ih =>
    obtain ⟨rfl, rfl⟩ := eq_copy_of_compare hd
    change 0 + (copying α).pathCost steps + 2 * ((copied (steps.map Step.edit)).length + 1) =
      xs.length + 1 + (ys.length + 1)
    omega

/-- The copies of a path are a common subsequence. -/
theorem Path.copied_sublist {steps : List (Step (Option α × Option α))}
    (h : (copying α).Path xs ys steps) :
    copied (steps.map Step.edit) <+ xs ∧ copied (steps.map Step.edit) <+ ys := by
  induction h with
  | done => exact ⟨.slnil, .slnil⟩
  | delete x _ ih => exact ⟨ih.1.cons x, ih.2⟩
  | insert y _ ih => exact ⟨ih.1, ih.2.cons y⟩
  | both hd _ ih =>
    obtain ⟨rfl, rfl⟩ := eq_copy_of_compare hd
    exact ⟨ih.1.cons_cons _, ih.2.cons_cons _⟩

/-! ## A path for a common subsequence -/

/-- Losses and gains are paid for, and equal heads are copied for nothing. -/
theorem optimum_copying_le (x : α) (xs ys : List α) :
    (copying α).optimum (x :: xs) ys ≤ 1 + (copying α).optimum xs ys ∧
      (copying α).optimum xs (x :: ys) ≤ 1 + (copying α).optimum xs ys ∧
      (copying α).optimum (x :: xs) (x :: ys) ≤ (copying α).optimum xs ys := by
  refine ⟨optimum_cons_left_le _ x xs ys, optimum_cons_right_le _ xs x ys, ?_⟩
  have hcompare : ((copying α).compare x x).run = some (some x, some x) := by simp [copying]
  simpa [copying] using optimum_cons_cons_le (copying α) hcompare xs ys

/-- Some path copies a given common subsequence: it follows the two sequences, loses and gains what
is not of the subsequence, and copies what is. -/
theorem optimum_add_length_le {l : List α} (hx : l <+ xs) (hy : l <+ ys) :
    (copying α).optimum xs ys + 2 * l.length ≤ xs.length + ys.length := by
  induction hx generalizing ys with
  | slnil => simpa using optimum_le (cost_copying_le α) [] ys
  | @cons l xs x hx ih =>
    have hlost := (optimum_copying_le x xs ys).1
    have hrest := ih hy
    rw [List.length_cons]
    omega
  | @cons_cons l xs x hx ih =>
    induction ys with
    | nil => cases hy
    | cons y ys ihy =>
      cases hy with
      | cons _ hy =>
        have hgained := (optimum_copying_le y (x :: xs) ys).2.1
        have hrest := ihy hy
        simp only [List.length_cons] at hrest ⊢
        omega
      | cons_cons _ hy =>
        have hcopied := (optimum_copying_le x xs ys).2.2
        have hrest := ih hy
        simp only [List.length_cons]
        omega

/-- The script of the recurrence copies a longest common subsequence. -/
theorem copiesLongest_best (tie : TieBreak) (xs ys : List α) :
    CopiesLongest xs ys (copied ((copying α).best tie xs ys).edits).length
      ((copying α).best tie xs ys).edits := by
  obtain ⟨steps, hpath, hedits⟩ := (copying α).exists_path_best tie xs ys
  have hcost := Path.cost_add_copied hpath
  have hcommon := Path.copied_sublist hpath
  rw [hedits] at hcost hcommon
  have hoptimum : (copying α).pathCost steps = (copying α).optimum xs ys :=
    pathCost_of_edits_best hedits
  have hsum : (copying α).pathCost steps = costOfAll ((copying α).best tie xs ys).edits := by
    rw [pathCost_eq_sum, hedits, costOfAll]
  refine ⟨⟨⟨_, hcommon.1, hcommon.2, rfl⟩, ?_⟩, by omega, ?_, rfl, hcommon.1, hcommon.2⟩
  · rintro n ⟨l, hx, hy, rfl⟩
    have hle := optimum_add_length_le hx hy
    omega
  · rw [copied, List.length_filterMap_eq_countP]

end Policy

/-- **Cheapest scripts copy longest common subsequences.** With copies of equal elements for nothing
and losses and gains at a price of one, whatever script the search returns costs the lengths of the
two sequences less twice the length of a longest common subsequence, and copies such a subsequence.
It returns one if the lengths add up to a cost that can be recorded. -/
theorem cheapestEdits_copiesLongest [DecidableEq α] (settings : Settings) (xs ys : List α) :
    ∃ n, (∀ {σ : Type} {s s' : σ} {edits : List (Option α × Option α)},
      (cheapestEdits (Policy.copying α).lift settings xs ys : Attempt σ _) s = .ok edits s' →
        Policy.CopiesLongest xs ys n edits) ∧
    (xs.length + ys.length ≤ maxCost → ∀ {m : Type → Type} [Monad m] [LawfulMonad m]
      [MonadLiftT (Except Fault) m] [LawfulMonadLiftT (Except Fault) m],
        ∃ edits, (cheapestEdits (Policy.copying α).lift settings xs ys : m _) = pure edits ∧
          Policy.CopiesLongest xs ys n edits) := by
  obtain ⟨n, hbest⟩ : ∃ n, Policy.CopiesLongest xs ys n
      ((Policy.copying α).best settings.tieBreak xs ys).edits :=
    ⟨_, Policy.copiesLongest_best settings.tieBreak xs ys⟩
  refine ⟨n, fun {σ s s' edits} h => ?_, fun h => ?_⟩
  · obtain ⟨script, hsearch, rfl⟩ := cheapestEdits_eq_ok_iff.1 h
    have hscript := ((Policy.copying α).searchRule_fits settings.tieBreak .never xs ys).search s _
      s' hsearch script rfl
    rw [hscript.1]
    exact hbest
  · intro m _ _ _ _
    exact ⟨_, cheapestEdits_lift _ (Policy.fits_copying h) settings, hbest⟩

/-- The letters of two words, with letters that occur more than once. -/
theorem cheapestEdits_copiesLongest_abcabba :
    "abcabba".toList.length + "cbabac".toList.length ≤ maxCost ∧
    ∃ n edits, (cheapestEdits (Policy.copying Char).lift {} "abcabba".toList "cbabac".toList :
        Except Fault _) = pure edits ∧
      Policy.CopiesLongest "abcabba".toList "cbabac".toList n edits ∧
      n = 4 ∧ Policy.copied edits = "cbba".toList := by
  have hlength : "abcabba".toList.length + "cbabac".toList.length ≤ maxCost := by decide
  have hedits : (cheapestEdits (Policy.copying Char).lift {} "abcabba".toList "cbabac".toList :
      Except Fault _) = pure [(some 'a', none), (some 'b', none), (some 'c', some 'c'),
        (some 'a', none), (some 'b', some 'b'), (none, some 'a'), (some 'b', some 'b'),
        (some 'a', some 'a'), (none, some 'c')] := by decide +kernel
  obtain ⟨n, -, hreturns⟩ :=
    cheapestEdits_copiesLongest {} "abcabba".toList "cbabac".toList
  obtain ⟨edits, hrun, hlongest⟩ := hreturns (m := Except Fault) hlength
  cases hedits.symm.trans hrun
  exact ⟨hlength, n, _, hrun, hlongest, hlongest.length.symm, by decide +kernel⟩

end TreeDiff
