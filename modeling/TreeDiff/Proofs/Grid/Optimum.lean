import Mathlib.Algebra.GroupWithZero.Nat
import Mathlib.Order.Bounds.Basic
import TreeDiff.Grid.Path
import TreeDiff.Grid.Recurrence
import TreeDiff.Proofs.Script.Prices

/-!
# Cheapest paths of the edit graph

The recurrence of `Grid/Recurrence` gives a cheapest path, and every rest of a cheapest path is a
cheapest path for what is left of the two sequences.

* `TieBreak.firstCheapest_ranked`: comparing the candidates one by one finds the first cheapest.
* `Policy.isLeast_optimum`: the least cost of a path is `Policy.optimum`, which is the total of
  `Policy.best` for both tie breaks.
* `Policy.exists_path_best`: the edits of `Policy.best` are those of a path.
* `Policy.Path.pathCost_drop`: the cost of what is left of a cheapest path.
* `Policy.exact_best`: the annotations of `Policy.best` are sums of the costs of its edits.
-/

namespace TreeDiff

variable {α β δ : Type}

/-! ## The first cheapest candidate -/

theorem Script.firstCheapest_singleton (s : Script δ) : firstCheapest [s] = s := by
  simp [firstCheapest]

/-- Comparing two scripts at the front leaves the first cheapest one as it is. -/
theorem Script.firstCheapest_cons_cons (s t : Script δ) (ts : List (Script δ)) :
    firstCheapest (s :: t :: ts) = firstCheapest (s.cheaper t :: ts) := by
  unfold firstCheapest cheaper
  by_cases h : t.total < s.total
  · have hall : ∀ u : Script δ, ((s :: t :: ts).all fun v => decide (u.total ≤ v.total)) =
        (t :: ts).all fun v => decide (u.total ≤ v.total) := by
      intro u
      grind
    rw [if_pos h]
    simp only [hall]
    rw [List.find?_cons_of_neg]
    grind
  · have hall : ∀ u : Script δ, ((s :: t :: ts).all fun v => decide (u.total ≤ v.total)) =
        (s :: ts).all fun v => decide (u.total ≤ v.total) := by
      intro u
      grind
    rw [if_neg h]
    simp only [hall]
    rw [List.find?_cons, List.find?_cons, List.find?_cons]
    grind

theorem Script.cheaper_assoc (s t u : Script δ) :
    (s.cheaper t).cheaper u = s.cheaper (t.cheaper u) := by
  unfold cheaper
  grind

theorem TieBreak.firstCheapest_ranked (tie : TieBreak) (delete insert : Script δ)
    (both : Option (Script δ)) :
    Script.firstCheapest (tie.ranked delete insert both) = tie.pick delete insert both := by
  cases tie <;> cases both <;>
    simp [ranked, pick, Script.firstCheapest_cons_cons, Script.firstCheapest_singleton,
      Script.cheaper_assoc]

namespace Policy

variable (P : Policy Id α β δ) (tie : TieBreak)

/-! ## The total of the recurrence -/

theorem best_cons_cons (x : α) (xs : List α) (y : β) (ys : List β) :
    P.best tie (x :: xs) (y :: ys) =
      tie.pick (P.extend (P.delete x) (P.best tie xs (y :: ys)))
        (P.extend (P.insert y) (P.best tie (x :: xs) ys))
        ((P.compare x y).run.map fun d => P.extend d (P.best tie xs ys)) := by
  rw [best, TieBreak.firstCheapest_ranked]

@[simp] theorem total_extend (d : δ) (s : Script δ) :
    (P.extend d s).total = (P.cost d).run + s.total := rfl

@[simp] theorem edits_extend (d : δ) (s : Script δ) : (P.extend d s).edits = d :: s.edits := rfl

theorem total_best (xs : List α) (ys : List β) :
    (P.best tie xs ys).total = P.optimum xs ys := by
  induction xs, ys using optimum.induct P with
  | case1 => rw [best, optimum, Script.total_empty]
  | case2 x xs ih => rw [best, optimum, total_extend, ih]
  | case3 y ys ih => rw [best, optimum, total_extend, ih]
  | case4 x xs y ys hnone ih₁ ih₂ =>
    simp [best_cons_cons, optimum, hnone, TieBreak.total_pick_none, ih₁, ih₂]
  | case5 x xs y ys d hsome ih₁ ih₂ ih₃ =>
    simp [best_cons_cons, optimum, hsome, TieBreak.total_pick_some, ih₁, ih₂, ih₃]

theorem optimum_cons_left_le (x : α) (xs : List α) (ys : List β) :
    P.optimum (x :: xs) ys ≤ (P.cost (P.delete x)).run + P.optimum xs ys := by
  cases ys with
  | nil => rw [optimum]
  | cons y ys =>
    rw [optimum]
    split <;> omega

theorem optimum_cons_right_le (xs : List α) (y : β) (ys : List β) :
    P.optimum xs (y :: ys) ≤ (P.cost (P.insert y)).run + P.optimum xs ys := by
  cases xs with
  | nil => rw [optimum]
  | cons x xs =>
    rw [optimum]
    split <;> omega

theorem optimum_cons_cons_le {x : α} {y : β} {d : δ} (h : (P.compare x y).run = some d)
    (xs : List α) (ys : List β) :
    P.optimum (x :: xs) (y :: ys) ≤ (P.cost d).run + P.optimum xs ys := by
  rw [optimum, h]
  exact Nat.min_le_right _ _

/-! ## Paths -/

/-- The costs of the paths from two sequences. -/
def pathCosts (xs : List α) (ys : List β) : Set Nat :=
  {c | ∃ steps, P.Path xs ys steps ∧ P.pathCost steps = c}

theorem pathCost_cons (step : Step δ) (steps : List (Step δ)) :
    P.pathCost (step :: steps) = (P.cost step.edit).run + P.pathCost steps := rfl

theorem pathCost_eq_sum (steps : List (Step δ)) :
    P.pathCost steps = ((steps.map Step.edit).map fun d => (P.cost d).run).sum := by
  induction steps with
  | nil => rfl
  | cons step steps ih => rw [pathCost_cons, ih, List.map_cons, List.map_cons, List.sum_cons]

variable {P}

/-- No path is cheaper than the optimum. -/
theorem Path.optimum_le {xs : List α} {ys : List β} {steps : List (Step δ)}
    (h : P.Path xs ys steps) : P.optimum xs ys ≤ P.pathCost steps := by
  induction h with
  | done =>
    rw [optimum]
    exact Nat.zero_le _
  | @delete xs ys steps x _ ih =>
    rw [pathCost_cons]
    exact (P.optimum_cons_left_le x xs ys).trans (Nat.add_le_add_left ih _)
  | @insert xs ys steps y _ ih =>
    rw [pathCost_cons]
    exact (P.optimum_cons_right_le xs y ys).trans (Nat.add_le_add_left ih _)
  | @both xs ys steps x y d hd _ ih =>
    rw [pathCost_cons]
    exact (P.optimum_cons_cons_le hd xs ys).trans (Nat.add_le_add_left ih _)

/-- The steps after the first one are cheapest, if no path with this first step is cheaper. -/
theorem Path.pathCost_eq_optimum {xs : List α} {ys : List β} {step : Step δ}
    {steps : List (Step δ)} (h : P.Path xs ys steps)
    (hle : P.pathCost (step :: steps) ≤ (P.cost step.edit).run + P.optimum xs ys) :
    P.pathCost steps = P.optimum xs ys := by
  rw [pathCost_cons] at hle
  exact Nat.le_antisymm (Nat.le_of_add_le_add_left hle) h.optimum_le

/-- What is left of a cheapest path is a cheapest path for what is left of the sequences. -/
theorem Path.pathCost_drop {xs : List α} {ys : List β} {steps : List (Step δ)}
    (h : P.Path xs ys steps) (hcost : P.pathCost steps = P.optimum xs ys) (i : Nat) :
    P.pathCost (steps.drop i) = P.optimum (xs.drop (Step.lost (steps.take i)))
      (ys.drop (Step.gained (steps.take i))) := by
  induction h generalizing i with
  | done =>
    cases i <;> exact hcost
  | @delete xs ys steps x h ih =>
    cases i with
    | zero => exact hcost
    | succ i =>
      have hrest := Path.pathCost_eq_optimum h (hcost.trans_le (P.optimum_cons_left_le x xs ys))
      simpa [Step.lost, Step.gained] using ih hrest i
  | @insert xs ys steps y h ih =>
    cases i with
    | zero => exact hcost
    | succ i =>
      have hrest := Path.pathCost_eq_optimum h (hcost.trans_le (P.optimum_cons_right_le xs y ys))
      simpa [Step.lost, Step.gained] using ih hrest i
  | @both xs ys steps x y d hd h ih =>
    cases i with
    | zero => exact hcost
    | succ i =>
      have hrest := Path.pathCost_eq_optimum h (hcost.trans_le (P.optimum_cons_cons_le hd xs ys))
      simpa [Step.lost, Step.gained] using ih hrest i

/-! ## The script of the recurrence -/

variable (P)

theorem exists_path_best (xs : List α) (ys : List β) :
    ∃ steps, P.Path xs ys steps ∧ steps.map Step.edit = (P.best tie xs ys).edits := by
  induction xs, ys using best.induct with
  | case1 => exact ⟨[], .done, by rw [best]; rfl⟩
  | case2 x xs ih =>
    obtain ⟨steps, hpath, hedits⟩ := ih
    exact ⟨_, .delete x hpath, by rw [best, List.map_cons, hedits, edits_extend]⟩
  | case3 y ys ih =>
    obtain ⟨steps, hpath, hedits⟩ := ih
    exact ⟨_, .insert y hpath, by rw [best, List.map_cons, hedits, edits_extend]⟩
  | case4 x xs y ys ih₁ ih₂ ih₃ =>
    rw [best_cons_cons]
    refine tie.pick_ind (p := fun s => ∃ steps, P.Path (x :: xs) (y :: ys) steps ∧
      steps.map Step.edit = s.edits) ?_ ?_ fun s hs => ?_
    · obtain ⟨steps, hpath, hedits⟩ := ih₁
      exact ⟨_, .delete x hpath, by rw [List.map_cons, hedits, edits_extend]⟩
    · obtain ⟨steps, hpath, hedits⟩ := ih₂
      exact ⟨_, .insert y hpath, by rw [List.map_cons, hedits, edits_extend]⟩
    · obtain ⟨steps, hpath, hedits⟩ := ih₃
      obtain ⟨d, hd, rfl⟩ := Option.map_eq_some_iff.1 hs
      exact ⟨_, .both hd hpath, by rw [List.map_cons, hedits, edits_extend]⟩

/-- The script is annotated by the sums of the costs of its edits. -/
def Exact (s : Script δ) : Prop := s = .ofPrices (s.edits.map fun d => (d, (P.cost d).run))

variable {P} in
theorem Exact.extend {s : Script δ} (h : P.Exact s) (d : δ) : P.Exact (P.extend d s) := by
  unfold Exact at h ⊢
  rw [edits_extend, List.map_cons, Script.ofPrices_cons, ← h]
  rfl

theorem exact_best (xs : List α) (ys : List β) : P.Exact (P.best tie xs ys) := by
  induction xs, ys using best.induct with
  | case1 => rw [best]; rfl
  | case2 x xs ih => rw [best]; exact ih.extend _
  | case3 y ys ih => rw [best]; exact ih.extend _
  | case4 x xs y ys ih₁ ih₂ ih₃ =>
    rw [best_cons_cons]
    refine tie.pick_ind (ih₁.extend _) (ih₂.extend _) fun s hs => ?_
    obtain ⟨d, -, rfl⟩ := Option.map_eq_some_iff.1 hs
    exact ih₃.extend d

variable {P} in
theorem Exact.total_eq_sum {s : Script δ} (h : P.Exact s) :
    s.total = (s.edits.map fun d => (P.cost d).run).sum := by
  unfold Exact at h
  rw [h, Script.total_ofPrices, ← h, List.map_map]
  rfl

variable {P} in
/-- The annotation of an edit is the sum of the costs from this edit on. -/
theorem Exact.eq_sum_of_getElem? {s : Script δ} (h : P.Exact s) {i c : Nat} {d : δ}
    (hc : s.entries[i]? = some (d, c)) :
    c = ((s.edits.drop i).map fun d => (P.cost d).run).sum := by
  unfold Exact at h
  rw [h, Script.getElem?_ofPrices] at hc
  obtain ⟨p, -, hp⟩ := Option.map_eq_some_iff.1 hc
  rw [← (Prod.mk.inj hp).2, ← List.map_drop, List.map_map]
  rfl

variable {P tie} in
/-- Steps with the edits of the recurrence cost the optimum. -/
theorem pathCost_of_edits_best {xs : List α} {ys : List β} {steps : List (Step δ)}
    (h : steps.map Step.edit = (P.best tie xs ys).edits) :
    P.pathCost steps = P.optimum xs ys := by
  rw [pathCost_eq_sum, h, ← (P.exact_best tie xs ys).total_eq_sum, total_best]

/-- **The least cost of a path is the optimum.** -/
theorem isLeast_optimum (xs : List α) (ys : List β) :
    IsLeast (P.pathCosts xs ys) (P.optimum xs ys) := by
  constructor
  · obtain ⟨steps, hpath, hedits⟩ := P.exists_path_best .edits xs ys
    exact ⟨steps, hpath, pathCost_of_edits_best hedits⟩
  · rintro c ⟨steps, hpath, rfl⟩
    exact hpath.optimum_le

end Policy

end TreeDiff
