import Mathlib.Data.List.Forall2
import TreeDiff.Grid.Path
import TreeDiff.Proofs.Grid.Traversal

/-!
# Paths, their sides, and the search

The script of a path contains both sequences: read off the old sides of its edits, and the first
sequence comes back, in order; read off the new sides, and the second one does. Whatever the
callbacks answer, the search follows a path.

* `Path.filterMap_old`, `Path.forall₂_new`, `Path.filterMap_new`: the sides of a path.
* `Path.length_add_matches`: a path has one step for every element, but one for both elements of a
  match.
* `Script.Follows`: the edits of a script are those of a path.
* `Policy.Related`: two policies and interrupts whose steps are related by a simulation, with a
  property of the matches. `Policy.Related.of_steps`: steps that end early in the same way. Their
  searches are related, and follow paths with such matches: `Policy.Related.search`.
-/

namespace TreeDiff

variable {α β γ δ : Type}

/-! ## The two sides of a path -/

namespace Path

variable {delete : α → δ} {insert : β → δ} {matched : α → β → δ → Prop} {xs : List α} {ys : List β}
  {steps : List (Step δ)}

/-- The old sides of the edits of a path are the first sequence, seen through `f`. -/
theorem filterMap_old {old : δ → Option γ} {f : α → γ} (hdelete : ∀ x, old (delete x) = some (f x))
    (hinsert : ∀ y, old (insert y) = none)
    (hmatched : ∀ x y d, matched x y d → old d = some (f x))
    (h : Path delete insert matched xs ys steps) :
    (steps.map Step.edit).filterMap old = xs.map f := by
  induction h with
  | done => rfl
  | delete x _ ih => rw [List.map_cons, List.filterMap_cons_some (hdelete x), ih, List.map_cons]
  | insert y _ ih => rw [List.map_cons, List.filterMap_cons_none (hinsert y), ih]
  | both hd _ ih =>
    rw [List.map_cons, List.filterMap_cons_some (hmatched _ _ _ hd), ih, List.map_cons]

/-- The new sides of the edits of a path stand for the second sequence, one by one. -/
theorem forall₂_new {R : γ → β → Prop} {new : δ → Option γ} (hdelete : ∀ x, new (delete x) = none)
    (hinsert : ∀ y, ∃ y', new (insert y) = some y' ∧ R y' y)
    (hmatched : ∀ x y d, matched x y d → ∃ y', new d = some y' ∧ R y' y)
    (h : Path delete insert matched xs ys steps) :
    List.Forall₂ R ((steps.map Step.edit).filterMap new) ys := by
  induction h with
  | done => exact .nil
  | delete x _ ih =>
    rw [List.map_cons, List.filterMap_cons_none (hdelete x)]
    exact ih
  | insert y _ ih =>
    obtain ⟨y', hnew, hy'⟩ := hinsert y
    rw [List.map_cons, List.filterMap_cons_some hnew]
    exact .cons hy' ih
  | both hd _ ih =>
    obtain ⟨y', hnew, hy'⟩ := hmatched _ _ _ hd
    rw [List.map_cons, List.filterMap_cons_some hnew]
    exact .cons hy' ih

/-- The new sides of the edits of a path are the second sequence, seen through `f`. -/
theorem filterMap_new {new : δ → Option γ} {f : β → γ} (hdelete : ∀ x, new (delete x) = none)
    (hinsert : ∀ y, new (insert y) = some (f y))
    (hmatched : ∀ x y d, matched x y d → new d = some (f y))
    (h : Path delete insert matched xs ys steps) :
    (steps.map Step.edit).filterMap new = ys.map f := by
  have hsides : List.Forall₂ (fun y' y => y' = f y) ((steps.map Step.edit).filterMap new) ys :=
    h.forall₂_new hdelete (fun y => ⟨f y, hinsert y, rfl⟩)
      fun x y d hd => ⟨f y, hmatched x y d hd, rfl⟩
  rwa [← List.forall₂_map_right_iff, List.forall₂_eq_eq_eq] at hsides

/-- A path has a step for every element of the two sequences, but only one for a match. -/
theorem length_add_matches (h : Path delete insert matched xs ys steps) :
    steps.length + steps.countP (·.move = .both) = xs.length + ys.length := by
  induction h with
  | done => rfl
  | delete x _ ih =>
    rw [List.countP_cons_of_neg (by simp), List.length_cons, List.length_cons]
    omega
  | insert y _ ih =>
    rw [List.countP_cons_of_neg (by simp), List.length_cons, List.length_cons]
    omega
  | both _ _ ih =>
    rw [List.countP_cons_of_pos (by simp), List.length_cons, List.length_cons, List.length_cons]
    omega

end Path

/-- The edits of the script are those of a path. -/
def Script.Follows (delete : α → δ) (insert : β → δ) (matched : α → β → δ → Prop) (xs : List α)
    (ys : List β) (s : Script δ) : Prop :=
  ∃ steps, Path delete insert matched xs ys steps ∧ steps.map Step.edit = s.edits

namespace Script.Follows

variable {delete : α → δ} {insert : β → δ} {matched : α → β → δ → Prop} {xs : List α} {ys : List β}
  {x : α} {y : β} {d : δ} {s t : Script δ}

theorem empty : Script.empty.Follows delete insert matched [] [] := ⟨[], .done, rfl⟩

theorem cons_delete (hs : s.Follows delete insert matched xs ys)
    (ht : t.edits = delete x :: s.edits) : t.Follows delete insert matched (x :: xs) ys := by
  obtain ⟨steps, hpath, hedits⟩ := hs
  exact ⟨_, .delete x hpath, by rw [List.map_cons, hedits, ht]⟩

theorem cons_insert (hs : s.Follows delete insert matched xs ys)
    (ht : t.edits = insert y :: s.edits) : t.Follows delete insert matched xs (y :: ys) := by
  obtain ⟨steps, hpath, hedits⟩ := hs
  exact ⟨_, .insert y hpath, by rw [List.map_cons, hedits, ht]⟩

theorem cons_both (hs : s.Follows delete insert matched xs ys) (hd : matched x y d)
    (ht : t.edits = d :: s.edits) : t.Follows delete insert matched (x :: xs) (y :: ys) := by
  obtain ⟨steps, hpath, hedits⟩ := hs
  exact ⟨_, .both hd hpath, by rw [List.map_cons, hedits, ht]⟩

end Script.Follows

/-! ## The search follows a path -/

namespace Policy

variable {m₁ m₂ : Type → Type} {τ₁ τ₂ : Type} [Monad m₁] [LawfulMonad m₁]
  [MonadLiftT (Except Fault) m₁] [LawfulMonadLiftT (Except Fault) m₁] [Monad m₂] [LawfulMonad m₂]
  [MonadLiftT (Except Fault) m₂] [LawfulMonadLiftT (Except Fault) m₂]

/-- The steps of two policies and interrupts are related on two sequences, and what matches two
elements has the property `matched`. -/
structure Related (S : Simulation (ExceptT τ₁ m₁) (ExceptT τ₂ m₂)) (P : Policy m₁ α β δ)
    (P' : Policy m₂ α β δ) (interrupt : Interrupt m₁ τ₁) (interrupt' : Interrupt m₂ τ₂)
    (matched : α → β → δ → Prop) (xs : List α) (ys : List β) : Prop where
  delete_eq : P'.delete = P.delete
  insert_eq : P'.insert = P.insert
  /-- The question before a position. -/
  check : ∀ solved total, S.Rel (fun _ => True) (interrupt.check solved total)
    (interrupt'.check solved total)
  /-- The comparison of two elements. -/
  compare : ∀ x ∈ xs, ∀ y ∈ ys, (S.comap m₁ m₂).Rel (fun o => ∀ d, o = some d → matched x y d)
    (P.compare x y) (P'.compare x y)
  /-- The price of an edit. -/
  cost : ∀ d, (S.comap m₁ m₂).Rel (fun _ => True) (P.cost d) (P'.cost d)
  /-- The cost of a script with an edit in front. -/
  prepend : ∀ (d : δ) c s, (S.comap (Except Fault) (Except Fault)).Rel
    (fun t => t.edits = d :: s.edits) (Script.prepend P.ceiling d c s)
    (Script.prepend P'.ceiling d c s)

namespace Related

variable {S : Simulation (ExceptT τ₁ m₁) (ExceptT τ₂ m₂)} {P : Policy m₁ α β δ}
  {P' : Policy m₂ α β δ} {interrupt : Interrupt m₁ τ₁} {interrupt' : Interrupt m₂ τ₂}
  {matched : α → β → δ → Prop} {xs : List α} {ys : List β}
  (h : Related S P P' interrupt interrupt' matched xs ys)
include h

theorem searchRule (tie : TieBreak) :
    SearchRule S P P' tie interrupt interrupt' xs ys (fun _ _ => True)
      (Script.Follows P.delete P.insert matched) where
  delete_eq := h.delete_eq
  insert_eq := h.insert_eq
  check := h.check
  loss x _ := h.cost _
  gain y _ := h.cost _
  done := .empty
  delete hx _ hs := (S.comap _ _).mono (h.prepend _ _ _) fun _ ht => hs.cons_delete ht
  insert hy _ hs := (S.comap _ _).mono (h.prepend _ _ _) fun _ ht => hs.cons_insert ht
  cell := by
    intro x xs' y ys' c c' lost gained both hx hy _ _ hlost hgained hboth
    have hcompare := h.compare x (hx.subset List.mem_cons_self) y (hy.subset List.mem_cons_self)
    refine ((S.comap m₁ m₂).tracking Unit).cell (A := fun _ => True) (B := fun _ => True)
      (K := fun _ _ => True) P P' tie ?_ ?_ hcompare (fun d _ => h.cost d)
      fun d c hd _ => ?_
    · exact (S.comap _ _).mono (h.prepend _ c lost) fun t ht => hlost.cons_delete ht
    · exact (S.comap _ _).mono (h.prepend _ c' gained) fun t ht => hgained.cons_insert ht
    · exact (S.comap _ _).mono (h.prepend d c both) fun t ht => hboth.cons_both hd ht

omit h in
/-- Policies and interrupts whose steps are related end early in the same way, and overflow in the
same way. -/
theorem of_steps {τ : Type} {S : Simulation m₁ m₂} {interrupt : Interrupt m₁ τ}
    {interrupt' : Interrupt m₂ τ} (hdelete : P'.delete = P.delete) (hinsert : P'.insert = P.insert)
    (hceiling : P'.ceiling = P.ceiling)
    (hcheck : ∀ solved total,
      S.Rel (fun _ => True) (interrupt solved total) (interrupt' solved total))
    (hcompare : ∀ x ∈ xs, ∀ y ∈ ys,
      S.Rel (fun o => ∀ d, o = some d → matched x y d) (P.compare x y) (P'.compare x y))
    (hcost : ∀ d, S.Rel (fun _ => True) (P.cost d) (P'.cost d))
    (hoverflow : ∀ Q : Script δ → Prop, S.Rel Q
      (liftM (Except.error .costOverflow : Except Fault (Script δ)))
      (liftM (Except.error .costOverflow : Except Fault (Script δ)))) :
    Related (S.exceptT τ) P P' interrupt interrupt' matched xs ys where
  delete_eq := hdelete
  insert_eq := hinsert
  check solved total := S.check (hcheck solved total)
  compare x hx y hy := S.exceptT_liftM (hcompare x hx y hy)
  cost d := S.exceptT_liftM (hcost d)
  prepend d c s := by
    have hprepend : S.Rel (fun t => t.edits = d :: s.edits) (liftM (s.prepend P.ceiling d c))
        (liftM (s.prepend P'.ceiling d c)) := by
      rw [hceiling]
      cases hrun : s.prepend P.ceiling d c with
      | ok t => exact (S.comap (Except Fault) (Except Fault)).pure (Script.edits_of_prepend hrun)
      | error e =>
        obtain ⟨-, rfl⟩ := Script.prepend_eq_error_iff.1 hrun
        exact hoverflow _
    exact S.exceptT_liftM hprepend

/-- The searches are related, and their script follows a path. -/
theorem search (tie : TieBreak) :
    S.Rel (Script.Follows P.delete P.insert matched xs ys) (TreeDiff.search P tie interrupt xs ys)
      (TreeDiff.search P' tie interrupt' xs ys) :=
  (h.searchRule tie).search

end Related

end Policy

end TreeDiff
