import TreeDiff.Differ.Recurrence
import TreeDiff.Proofs.Differ.Cheapest
import TreeDiff.Proofs.Differ.Returned
import TreeDiff.Proofs.Grid.Recurrence

/-!
# The differ at the edit cost follows its recurrence

At the edit cost, whatever a call returns is what the recurrence of the differ gives, in whichever
state it began and whatever the ceiling is: the searches of children return exact scripts, and a
search with exact comparisons is exact. What is returned under a low ceiling is therefore what is
returned under a high one, and so a cheapest diff if equal labels are the same.

* `Differ.bestMatch?_node`, `Differ.eq_of_bestMatch?`: the recurrence on trees.
* `Differ.ChargesEdits.returning_match?`, `Differ.ChargesEdits.returning_searchScript`: all matches
  and searches.
* `Differ.ChargesEdits.eq_of_diffTrees`, `Differ.ChargesEdits.eq_of_diffSequences`: the calls.
* `Differ.isLeast_bestScript`, `Differ.isLeast_of_diffSequences`: the recurrence gives the least
  cost, and so does every call that returns, if equal labels are the same.
-/

namespace TreeDiff.Differ

variable {σ ℓ : Type}

/-! ## The recurrence on trees -/

section

variable (same : ℓ → ℓ → Bool) (tie : TieBreak)

theorem bestMatch?_node (l : ℓ) (cs : List (Tree ℓ)) (b : Tree ℓ) :
    bestMatch? same tie (.node l cs) b =
      if same l b.label then some (.merge l (bestScript same tie cs b.children).edits)
      else none := by
  rw [bestMatch?, bestCandidates_eq_map, Policy.best_map]
  rfl

/-- Trees with the same label have a match. -/
theorem bestMatch?_of_label {a b : Tree ℓ} (h : same a.label b.label = true) :
    bestMatch? same tie a b =
      some (.merge a.label (bestScript same tie a.children b.children).edits) := by
  obtain ⟨l, cs⟩ := a
  rw [bestMatch?_node]
  exact if_pos h

variable {same tie} in
/-- A match is a node over the script of the children. -/
theorem eq_of_bestMatch? {a b : Tree ℓ} {d : Diff ℓ} (h : bestMatch? same tie a b = some d) :
    d = .merge a.label (bestScript same tie a.children b.children).edits := by
  obtain ⟨l, cs⟩ := a
  rw [bestMatch?_node] at h
  split at h
  · cases h
    rfl
  · cases h

theorem bestPolicy_delete : (bestPolicy same tie).delete = fun a => .edit (.delete a) := rfl

theorem bestPolicy_insert : (bestPolicy same tie).insert = fun b => .edit (.insert b) := rfl

@[simp] theorem run_bestPolicy_cost (d : Diff ℓ) :
    ((bestPolicy same tie).cost d).run = d.editCost := rfl

end

/-! ## Searches inside searches -/

namespace ChargesEdits

variable {D : Differ (Attempt σ) ℓ} (hD : D.ChargesEdits)
include hD

/-- A price that is returned is the edit cost. -/
theorem returning_cost (d : Diff ℓ) :
    (Attempt.returning σ).Rel (· = d.editCost) (D.cost d) (D.cost d) := by
  intro s c s' hrun
  rw [hD] at hrun
  obtain ⟨hcost, -⟩ := Attempt.liftM_except_eq_ok_iff.1 hrun
  rw [Diff.editCost?_eq] at hcost
  exact (withinCeiling_eq_ok_iff.1 hcost).2.symm

/-- A search whose comparisons follow the recurrence does so. -/
theorem returning_searchScript_of_match? (as bs : List (Tree ℓ))
    (hcompare : ∀ a ∈ as, ∀ b ∈ bs, (returning Empty σ).Rel
      (· = bestMatch? D.sameLabel D.settings.tieBreak a b) (D.match? .never a b)
      (D.match? .never a b)) :
    ((returning Empty σ).exceptT Empty).Rel (· = bestScript D.sameLabel D.settings.tieBreak as bs)
      (D.searchScript .never (D.candidates .never as) bs)
      (D.searchScript .never (D.candidates .never as) bs) := by
  have hexact : Policy.Exactly ((returning Empty σ).exceptT Empty) (D.treePolicy .never)
      (bestPolicy D.sameLabel D.settings.tieBreak) (asking .never) as bs :=
    { delete_eq := rfl
      insert_eq := rfl
      check := fun _ _ _ _ _ _ _ _ _ => trivial
      compare := fun a ha b hb => (returning Empty σ).exceptT_liftM (hcompare a ha b hb)
      cost := fun d => (returning Empty σ).exceptT_liftM
        ((Attempt.returning σ).stateT_liftM (hD.returning_cost d))
      prepend := fun d c s => Reporting.rel_except _ (Attempt.returning_throw _) fun t ht =>
        (Script.prepend_eq_ok_iff.1 ht).2.symm }
  rw [searchScript_candidates]
  exact hexact.search D.settings.tieBreak

/-- **Every match that is returned is the match of the recurrence.** -/
theorem returning_match? (a b : Tree ℓ) :
    (returning Empty σ).Rel (· = bestMatch? D.sameLabel D.settings.tieBreak a b)
      (D.match? .never a b) (D.match? .never a b) := by
  induction a using Tree.induct generalizing b with
  | step l cs ih =>
    have hsearch := hD.returning_searchScript_of_match? cs b.children fun a ha b _ => ih a ha b
    intro r
    -- there is no report
    obtain rfl : r = none := by cases r <;> trivial
    rw [match?_node, ← candidates_eq_map, bestMatch?_node]
    cases hl : D.sameLabel l b.label with
    | false =>
      rw [D.run_matchNode_of_ne .never _ hl]
      exact (Attempt.returning σ).pure rfl
    | true =>
      rw [D.run_matchNode_none .never _ hl]
      refine (Attempt.returning σ).bind (hsearch none) fun p hp => (Attempt.returning σ).pure ?_
      obtain ⟨e | script, r'⟩ := p
      · exact e.elim
      · rw [settled, hp script rfl]
        rfl

/-- Every script that is returned is the script of the recurrence. -/
theorem returning_searchScript (as bs : List (Tree ℓ)) :
    ((returning Empty σ).exceptT Empty).Rel (· = bestScript D.sameLabel D.settings.tieBreak as bs)
      (D.searchScript .never (D.candidates .never as) bs)
      (D.searchScript .never (D.candidates .never as) bs) :=
  hD.returning_searchScript_of_match? as bs fun a _ b _ => hD.returning_match? a b

/-! ## Calls -/

variable {a b : Tree ℓ} {as bs : List (Tree ℓ)} {s s' : σ} {d : Diff ℓ} {ds : List (Diff ℓ)}

theorem eq_of_diffTrees (h : D.diffTrees a b s = .ok d s') :
    d = (bestMatch? D.sameLabel D.settings.tieBreak a b).getD (.edit (.replace a b)) := by
  obtain ⟨o, hmatch, rfl⟩ := exists_match?_of_diffTrees h
  rw [← hD.returning_match? a b none s _ s' hmatch]

theorem eq_of_diffSequences (h : D.diffSequences as bs s = .ok ds s') :
    ds = (bestScript D.sameLabel D.settings.tieBreak as bs).edits := by
  obtain ⟨script, hsearch, rfl⟩ := exists_search_of_diffSequences h
  exact congrArg Script.edits (hD.returning_searchScript as bs none s _ s' hsearch script rfl)

end ChargesEdits

/-! ## Equal labels -/

/-- If equal labels are the same, the recurrence gives a cheapest list of diffs. -/
theorem isLeast_bestScript [DecidableEq ℓ] (tie : TieBreak) (as bs : List (Tree ℓ)) :
    IsLeast (Diff.costsAll as bs)
      (Diff.editCostAll (bestScript (fun l k => decide (l = k)) tie as bs).edits) := by
  -- what the differ returns under a ceiling that is high enough
  have hD := isStandard_standard (m := Attempt Unit) (ℓ := ℓ)
    (Tree.nodesAll as + Tree.nodesAll bs) { tieBreak := tie }
  obtain ⟨ds, hds, -, -, hleast⟩ :=
    hD.diffSequences_isLeast (Nat.le_refl (Tree.nodesAll as + Tree.nodesAll bs))
  have hrun : _ = EStateM.Result.ok ds () := congrFun hds ()
  rw [hD.chargesEdits.eq_of_diffSequences hrun] at hleast
  exact hleast

/-- What is returned has the least cost, however low the ceiling is. -/
theorem isLeast_of_diffSequences [DecidableEq ℓ] {ceiling : Nat} {settings : Settings}
    {as bs : List (Tree ℓ)} {ds : List (Diff ℓ)} {s s' : σ}
    (h : ({ standard ceiling with settings } : Differ (Attempt σ) ℓ).diffSequences as bs s =
      .ok ds s') : IsLeast (Diff.costsAll as bs) (Diff.editCostAll ds) := by
  have hD := isStandard_standard (m := Attempt σ) (ℓ := ℓ) ceiling settings
  rw [hD.chargesEdits.eq_of_diffSequences h]
  exact isLeast_bestScript settings.tieBreak as bs

end TreeDiff.Differ
