import TreeDiff.Proofs.Grid.Optimum
import TreeDiff.Proofs.Grid.Traversal

/-!
# Searches that follow the recurrence

If the comparisons, the prices and the sums of a search are exact as far as a simulation says what
they answer, then so is its script: it is the script of the recurrence, edit for edit and annotation
for annotation. Nothing is said of a ceiling. A simulation that speaks of the answers that are
returned only knows no sum above it.

* `Policy.best_map`: the recurrence on elements that are replaced by others.
* `Policy.Exactly`: the steps of a policy answer what the steps of an exact one do.
* `Policy.Exactly.search`: the search finds the script of the recurrence.
-/

namespace TreeDiff.Policy

variable {α α' β δ : Type}

/-- The elements may be replaced in the sequence or in the policy. -/
theorem best_map (P : Policy Id α β δ) (tie : TieBreak) (f : α' → α) (xs : List α')
    (ys : List β) : P.best tie (xs.map f) ys = (P.onFirst f).best tie xs ys := by
  induction xs, ys using best.induct with
  | case1 => rw [List.map_nil, best, best]
  | case2 x xs ih => rw [List.map_cons, best, best, ih]; rfl
  | case3 y ys ih =>
    rw [List.map_nil] at ih ⊢
    rw [best, best, ih]
    rfl
  | case4 x xs y ys ih₁ ih₂ ih₃ =>
    rw [List.map_cons] at ih₂ ⊢
    rw [best_cons_cons, best_cons_cons, ih₁, ih₂, ih₃]
    rfl

variable {m : Type → Type} [Monad m] [LawfulMonad m] [MonadLiftT (Except Fault) m]
  [LawfulMonadLiftT (Except Fault) m] {τ : Type}

/-- As far as the simulation says what they answer, the steps of the policy `P` on two sequences are
those of the exact policy `P₀`. -/
structure Exactly (S : Simulation (ExceptT τ m) (ExceptT τ m)) (P : Policy m α β δ)
    (P₀ : Policy Id α β δ) (interrupt : Interrupt m τ) (xs : List α) (ys : List β) : Prop where
  delete_eq : P.delete = P₀.delete
  insert_eq : P.insert = P₀.insert
  /-- The question before a position. -/
  check : ∀ solved total, S.Rel (fun _ => True) (interrupt.check solved total)
    (interrupt.check solved total)
  /-- The comparison of two elements. -/
  compare : ∀ x ∈ xs, ∀ y ∈ ys, (S.comap m m).Rel (· = (P₀.compare x y).run) (P.compare x y)
    (P.compare x y)
  /-- The price of an edit. -/
  cost : ∀ d, (S.comap m m).Rel (· = (P₀.cost d).run) (P.cost d) (P.cost d)
  /-- The cost of a script with an edit in front. -/
  prepend : ∀ (d : δ) c s, (S.comap (Except Fault) (Except Fault)).Rel (· = s.cons d c)
    (Script.prepend P.ceiling d c s) (Script.prepend P.ceiling d c s)

namespace Exactly

variable {S : Simulation (ExceptT τ m) (ExceptT τ m)} {P : Policy m α β δ} {P₀ : Policy Id α β δ}
  {interrupt : Interrupt m τ} {xs : List α} {ys : List β}
  (h : Exactly S P P₀ interrupt xs ys)
include h

/-- A position gets the script that the recurrence picks. -/
theorem cell (tie : TieBreak) {x : α} {y : β} (hx : x ∈ xs) (hy : y ∈ ys)
    (lost gained both : Script δ) :
    (S.comap m m).Rel
      (· = tie.pick (P₀.extend (P₀.delete x) lost) (P₀.extend (P₀.insert y) gained)
        ((P₀.compare x y).run.map fun d => P₀.extend d both))
      (P.cell tie ⟨x, P.delete x, (P₀.cost (P₀.delete x)).run⟩
        ⟨y, P.insert y, (P₀.cost (P₀.insert y)).run⟩ lost gained both)
      (P.cell tie ⟨x, P.delete x, (P₀.cost (P₀.delete x)).run⟩
        ⟨y, P.insert y, (P₀.cost (P₀.insert y)).run⟩ lost gained both) := by
  have hmatching : (S.comap m m).Rel
      (· = (P₀.compare x y).run.map fun d => P₀.extend d both) (P.matching x y both)
      (P.matching x y both) := by
    unfold matching
    refine (S.comap m m).bind (h.compare x hx y hy) fun o ho => ?_
    subst ho
    cases (P₀.compare x y).run with
    | none => exact (S.comap m m).pure rfl
    | some d =>
      refine (S.comap m m).bind (h.cost d) fun c hc => ?_
      subst hc
      refine (S.comap m m).bind (h.prepend d _ both) fun s hs => (S.comap m m).pure ?_
      rw [hs]
      rfl
  unfold Policy.cell Policy.prepend
  rw [h.delete_eq, h.insert_eq]
  refine (S.comap m m).bind (h.prepend _ _ lost) fun viaDelete hdelete => ?_
  refine (S.comap m m).bind (h.prepend _ _ gained) fun viaInsert hinsert => ?_
  refine (S.comap m m).bind hmatching fun viaMatch hmatch => (S.comap m m).pure ?_
  rw [hdelete, hinsert, hmatch]
  rfl

/-- Every position gets the script of the recurrence. -/
theorem searchRule (tie : TieBreak) :
    SearchRule S P P tie interrupt interrupt xs ys (fun d c => c = (P₀.cost d).run)
      (fun xs' ys' s => s = P₀.best tie xs' ys') where
  delete_eq := rfl
  insert_eq := rfl
  check := h.check
  loss x _ := h.cost _
  gain y _ := h.cost _
  done := by rw [best]
  delete := by
    rintro x xs' c s - rfl rfl
    rw [h.delete_eq, best]
    exact h.prepend _ _ _
  insert := by
    rintro y ys' c s - rfl rfl
    rw [h.insert_eq, best]
    exact h.prepend _ _ _
  cell := by
    rintro x xs' y ys' c c' lost gained both hx hy rfl rfl rfl rfl rfl
    rw [best_cons_cons, ← h.delete_eq, ← h.insert_eq]
    have hcell := h.cell tie (hx.subset List.mem_cons_self) (hy.subset List.mem_cons_self)
      (P₀.best tie xs' (y :: ys')) (P₀.best tie (x :: xs') ys') (P₀.best tie xs' ys')
    rwa [← h.delete_eq, ← h.insert_eq] at hcell

/-- **The search finds the script of the recurrence.** -/
theorem search (tie : TieBreak) :
    S.Rel (· = P₀.best tie xs ys) (TreeDiff.search P tie interrupt xs ys)
      (TreeDiff.search P tie interrupt xs ys) :=
  (h.searchRule tie).search

end Exactly

end TreeDiff.Policy
