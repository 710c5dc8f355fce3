import TreeDiff.Diff.Kinds
import TreeDiff.Proofs.Differ.Ceiling
import TreeDiff.Proofs.Differ.Children
import TreeDiff.Proofs.Differ.Recurrence
import TreeDiff.Proofs.Grid.Segments

/-!
# The normal form of diffs

A diff that is returned replaces a tree only if the roots have other labels, and then it is nothing
but this replacement. At the edit cost it is moreover as small as it looks: between two matches no
tree is lost and another one gained that could have been matched with it. The match would cost two
nodes less, and no segment of a cheapest script can be made cheaper. This holds in the script of two
lists and in the children of every matched node, and does not depend on which labels are the same.

* `Diff.AtEveryDepth`: a property of a list of diffs and of the children of all matched nodes in it.
* `Diff.MissesNoMatch`: no run of edits loses a tree and gains one with the same label.
* `Differ.returning_contains_replace`: scripts of searches have no replacement.
* `Differ.bestScript_missesNoMatch`, `Differ.atEveryDepth_bestScript`: the scripts of the
  recurrence.
* `Differ.cases_of_diffTrees`: what a call on two trees returns.
* `Differ.returned_normalForm`: all calls.
-/

namespace TreeDiff

variable {σ ℓ : Type}

namespace Diff

/-- The property holds of the list and, at every depth, of the children of the matched nodes. -/
inductive AtEveryDepth (p : List (Diff ℓ) → Prop) : List (Diff ℓ) → Prop
  | intro {ds : List (Diff ℓ)} :
    p ds → (∀ l es, merge l es ∈ ds → AtEveryDepth p es) → AtEveryDepth p ds

/-- No run of edits in the list loses a tree and gains one whose label counts as the same. -/
def MissesNoMatch (same : ℓ → ℓ → Bool) (ds : List (Diff ℓ)) : Prop :=
  ∀ run : List (Edit (Tree ℓ)), run.map edit <:+: ds →
    ∀ x y, .delete x ∈ run → .insert y ∈ run → same x.label y.label = false

variable {p : List (Diff ℓ) → Prop} {same : ℓ → ℓ → Bool} {d : Diff ℓ} {ds : List (Diff ℓ)}

theorem missesNoMatch_singleton : MissesNoMatch same [d] := by
  intro run hrun x y hx hy
  have hlength := hrun.length_le
  -- a run with both edits is longer than the list
  match run, hx, hy with
  | [e], hx, hy =>
    rw [List.mem_singleton] at hx hy
    cases hx.trans hy.symm
  | _ :: _ :: _, _, _ => simp at hlength

/-! ## Replacements -/

theorem contains_kinds_edit_iff {e : Edit (Tree ℓ)} {k : EditKind} :
    (edit e).kinds.contains k = true ↔ e.kind = k := by
  simp [contains_kinds_iff]

/-- A matched node has the kinds of edits that its children have. -/
theorem contains_kinds_merge_iff {l : ℓ} {k : EditKind} :
    (merge l ds).kinds.contains k = true ↔ ∃ d ∈ ds, d.kinds.contains k = true := by
  simp only [contains_kinds_iff, edits_merge, editsAll_eq_flatMap, List.mem_flatMap]
  constructor
  · rintro ⟨e, ⟨d, hd, he⟩, hk⟩
    exact ⟨d, hd, e, he, hk⟩
  · rintro ⟨d, hd, e, he, hk⟩
    exact ⟨e, ⟨d, hd, he⟩, hk⟩

theorem contains_replace_merge (l : ℓ) (h : ∀ d ∈ ds, d.kinds.contains .replace = false) :
    (merge l ds).kinds.contains .replace = false := by
  rw [Bool.eq_false_iff, ne_eq, contains_kinds_merge_iff]
  rintro ⟨d, hd, hreplace⟩
  rw [h d hd] at hreplace
  cases hreplace

end Diff

namespace Differ

open Diff

variable {as bs : List (Tree ℓ)} {s : Script (Diff ℓ)}

/-- A script without replacements in its matches has none. -/
theorem contains_replace_of_follows
    (h : Follows (fun _ _ d => d.kinds.contains .replace = false) as bs s) :
    ∀ d ∈ s.edits, d.kinds.contains .replace = false := by
  intro d hd
  obtain ⟨steps, hpath, hedits⟩ := h
  rw [← hedits] at hd
  rw [Bool.eq_false_iff]
  intro hreplace
  obtain ⟨a, -, rfl⟩ | ⟨b, -, rfl⟩ | ⟨a, -, b, -, -, -, hmatch⟩ := hpath.mem_cases hd
  · cases contains_kinds_edit_iff.1 hreplace
  · cases contains_kinds_edit_iff.1 hreplace
  · rw [hmatch] at hreplace
    cases hreplace

/-- No script that is returned has a replacement, at any depth. -/
theorem returning_contains_replace {τ : Type} (D : Differ (Attempt σ) ℓ)
    (interrupt : Interrupt (Attempt σ) τ) (as bs : List (Tree ℓ)) :
    ((returning τ σ).exceptT τ).Rel (fun s => ∀ d ∈ s.edits, d.kinds.contains .replace = false)
      (D.searchScript interrupt (D.candidates interrupt as) bs)
      (D.searchScript interrupt (D.candidates interrupt as) bs) :=
  Simulation.mono _
    (D.returning_searchScript interrupt (Q := fun _ _ d => d.kinds.contains .replace = false)
      (fun _ hs => contains_replace_merge _ (contains_replace_of_follows hs)) as bs)
    fun _ hs => contains_replace_of_follows hs

/-! ## The costs of the recurrence -/

section

variable (same : ℓ → ℓ → Bool) (tie : TieBreak)

/-- Nothing costs more than to lose all trees and to gain all others. -/
theorem optimum_bestPolicy_le (as bs : List (Tree ℓ)) :
    (bestPolicy same tie).optimum as bs ≤ Tree.nodesAll as + Tree.nodesAll bs := by
  induction as with
  | nil =>
    induction bs with
    | nil => simp [Policy.optimum]
    | cons b bs ih =>
      have hle := (bestPolicy same tie).optimum_cons_right_le [] b bs
      rw [run_bestPolicy_cost, bestPolicy_insert, editCost_insert, Tree.size_eq_nodes] at hle
      rw [Tree.nodesAll_cons]
      omega
  | cons a as ih =>
    have hle := (bestPolicy same tie).optimum_cons_left_le a as bs
    rw [run_bestPolicy_cost, bestPolicy_delete, editCost_delete, Tree.size_eq_nodes] at hle
    rw [Tree.nodesAll_cons]
    omega

theorem editCostAll_bestScript (as bs : List (Tree ℓ)) :
    editCostAll (bestScript same tie as bs).edits = (bestPolicy same tie).optimum as bs := by
  rw [editCostAll_eq_sum, ← Policy.total_best]
  exact ((bestPolicy same tie).exact_best tie as bs).total_eq_sum.symm

variable {same tie} {a b : Tree ℓ} {d : Diff ℓ}

/-- The match of two trees costs less than to lose the one and to gain the other. -/
theorem editCost_lt_of_bestMatch? (h : bestMatch? same tie a b = some d) :
    d.editCost < a.size + b.size := by
  rw [eq_of_bestMatch? h, editCost_merge, editCostAll_bestScript]
  have hle := optimum_bestPolicy_le same tie a.children b.children
  have ha := a.size_eq_nodesAll_children
  have hb := b.size_eq_nodesAll_children
  omega

/-! ## Runs of edits -/

/-- A path without a match loses and gains everything, one tree after the other. -/
theorem pathCost_of_edits {us vs : List (Tree ℓ)} {steps : List (Step (Diff ℓ))}
    {run : List (Edit (Tree ℓ))} (h : (bestPolicy same tie).Path us vs steps)
    (hrun : steps.map Step.edit = run.map edit) :
    (bestPolicy same tie).pathCost steps = Tree.nodesAll us + Tree.nodesAll vs ∧
      (∀ x, .delete x ∈ run → x ∈ us) ∧ ∀ y, .insert y ∈ run → y ∈ vs := by
  induction h generalizing run with
  | done =>
    obtain rfl := List.map_eq_nil_iff.1 hrun.symm
    exact ⟨rfl, nofun, nofun⟩
  | @delete us vs steps x _ ih =>
    obtain ⟨e, run, rfl, he, hrest⟩ := List.map_eq_cons_iff.1 hrun.symm
    cases he
    obtain ⟨hcost, hlost, hgained⟩ := ih hrest.symm
    refine ⟨?_, fun x' hx' => ?_, fun y hy => ?_⟩
    · rw [Policy.pathCost_cons, hcost, run_bestPolicy_cost, bestPolicy_delete, editCost_delete,
        Tree.size_eq_nodes, Tree.nodesAll_cons, Nat.add_assoc]
    · obtain ⟨⟨⟩⟩ | hx' := List.mem_cons.1 hx'
      · exact List.mem_cons_self
      · exact List.mem_cons_of_mem x (hlost x' hx')
    · obtain ⟨⟨⟩⟩ | hy := List.mem_cons.1 hy
      exact hgained y hy
  | @insert us vs steps y _ ih =>
    obtain ⟨e, run, rfl, he, hrest⟩ := List.map_eq_cons_iff.1 hrun.symm
    cases he
    obtain ⟨hcost, hlost, hgained⟩ := ih hrest.symm
    refine ⟨?_, fun x hx => ?_, fun y' hy' => ?_⟩
    · rw [Policy.pathCost_cons, hcost, run_bestPolicy_cost, bestPolicy_insert, editCost_insert,
        Tree.size_eq_nodes, Tree.nodesAll_cons, Nat.add_left_comm]
    · obtain ⟨⟨⟩⟩ | hx := List.mem_cons.1 hx
      exact hlost x hx
    · obtain ⟨⟨⟩⟩ | hy' := List.mem_cons.1 hy'
      · exact List.mem_cons_self
      · exact List.mem_cons_of_mem y (hgained y' hy')
  | both hmatch _ _ =>
    obtain ⟨e, run, rfl, he, hrest⟩ := List.map_eq_cons_iff.1 hrun.symm
    rw [eq_of_bestMatch? hmatch] at he
    cases he

variable (tie) in
/-- With a match of two of the trees, less is lost and gained. -/
theorem optimum_lt_of_label {us vs : List (Tree ℓ)} (ha : a ∈ us) (hb : b ∈ vs)
    (h : same a.label b.label = true) :
    (bestPolicy same tie).optimum us vs < Tree.nodesAll us + Tree.nodesAll vs := by
  obtain ⟨us₁, us₂, rfl⟩ := List.append_of_mem ha
  obtain ⟨vs₁, vs₂, rfl⟩ := List.append_of_mem hb
  have hmatch := bestMatch?_of_label same tie h
  have hlt := editCost_lt_of_bestMatch? hmatch
  have hcut := (bestPolicy same tie).optimum_append_le us₁ (a :: us₂) vs₁ (b :: vs₂)
  have hboth := (bestPolicy same tie).optimum_cons_cons_le hmatch us₂ vs₂
  have hbefore := optimum_bestPolicy_le same tie us₁ vs₁
  have hafter := optimum_bestPolicy_le same tie us₂ vs₂
  simp only [run_bestPolicy_cost, Tree.nodesAll_append, Tree.nodesAll_cons,
    Tree.size_eq_nodes] at hlt hboth ⊢
  omega

variable (same tie)

/-- The script of the recurrence misses no match. -/
theorem bestScript_missesNoMatch (as bs : List (Tree ℓ)) :
    MissesNoMatch same (bestScript same tie as bs).edits := by
  rintro run ⟨before, after, hinfix⟩ x y hx hy
  obtain ⟨steps, hpath, hedits⟩ := (bestPolicy same tie).exists_path_best tie as bs
  have hcost := Policy.pathCost_of_edits_best hedits
  rw [bestScript, ← hedits, List.append_assoc] at hinfix
  obtain ⟨s, rest, rfl, -, hrest⟩ := List.map_eq_append_iff.1 hinfix.symm
  obtain ⟨t, u, rfl, hrun, -⟩ := List.map_eq_append_iff.1 hrest
  obtain ⟨us, vs, -, -, ht, hleast⟩ := hpath.pathCost_segment hcost
  obtain ⟨hnodes, hlost, hgained⟩ := pathCost_of_edits ht hrun
  rw [Bool.eq_false_iff]
  intro hsame
  have hlt := optimum_lt_of_label tie (hlost x hx) (hgained y hy) hsame
  omega

/-! ## At every depth -/

variable {same tie} {p : List (Diff ℓ) → Prop}

/-- What holds of a script, and at every depth of the matches in it, holds at every depth. -/
theorem atEveryDepth_of_bestMatch? (hp : p (bestScript same tie as bs).edits)
    (h : ∀ a ∈ as, ∀ b ∈ bs, AtEveryDepth p (bestScript same tie a.children b.children).edits) :
    AtEveryDepth p (bestScript same tie as bs).edits := by
  refine .intro hp fun l es hmem => ?_
  obtain ⟨steps, hpath, hedits⟩ := (bestPolicy same tie).exists_path_best tie as bs
  rw [bestScript, ← hedits] at hmem
  obtain ⟨a, -, ⟨⟩⟩ | ⟨b, -, ⟨⟩⟩ | ⟨a, ha, b, hb, hmatch⟩ := hpath.mem_cases hmem
  cases eq_of_bestMatch? hmatch
  exact h a ha b hb

/-- What holds of every script of the recurrence holds at every depth of it. -/
theorem atEveryDepth_bestScript (hp : ∀ as bs, p (bestScript same tie as bs).edits)
    (as bs : List (Tree ℓ)) : AtEveryDepth p (bestScript same tie as bs).edits := by
  have htree : ∀ a b : Tree ℓ,
      AtEveryDepth p (bestScript same tie a.children b.children).edits := by
    intro a
    induction a using Tree.induct with
    | step l cs ih =>
      intro b
      exact atEveryDepth_of_bestMatch? (hp cs b.children) fun a ha b' _ => ih a ha b'
  exact atEveryDepth_of_bestMatch? (hp as bs) fun a _ b _ => htree a b

end

/-! ## Calls -/

variable {D : Differ (Attempt σ) ℓ} {a b : Tree ℓ} {d : Diff ℓ} {ds : List (Diff ℓ)} {s s' : σ}

theorem contains_replace_of_diffSequences (h : D.diffSequences as bs s = .ok ds s') :
    ∀ d ∈ ds, d.kinds.contains .replace = false := by
  obtain ⟨script, hsearch, rfl⟩ := exists_search_of_diffSequences h
  exact D.returning_contains_replace .never as bs none s _ s' hsearch script rfl

/-- A call on trees returns a match over what the call on their children returns, or a
replacement. -/
theorem cases_of_diffTrees (h : D.diffTrees a b s = .ok d s') :
    (D.sameLabel a.label b.label = true ∧ ∃ ds, d = .merge a.label ds ∧
        D.diffSequences a.children b.children s = .ok ds s') ∨
      D.sameLabel a.label b.label = false ∧ d = .edit (.replace a b) := by
  cases hl : D.sameLabel a.label b.label with
  | true =>
    rw [diffTrees_eq_map hl, map_eq_pure_bind] at h
    obtain ⟨ds, s₁, hds, hd⟩ := Attempt.bind_eq_ok_iff.1 h
    cases hd
    exact .inl ⟨rfl, ds, rfl, hds⟩
  | false =>
    rw [diffTrees_of_label_ne hl] at h
    cases h
    exact .inr ⟨rfl, rfl⟩

theorem contains_replace_iff_of_diffTrees (h : D.diffTrees a b s = .ok d s') :
    d.kinds.contains .replace = true ↔ D.sameLabel a.label b.label = false := by
  obtain ⟨hl, ds, rfl, hds⟩ | ⟨hl, rfl⟩ := cases_of_diffTrees h
  · simp only [contains_replace_merge _ (contains_replace_of_diffSequences hds), hl,
      Bool.false_eq_true, Bool.true_eq_false]
  · exact iff_of_true (contains_kinds_edit_iff.2 rfl) hl

namespace ChargesEdits

variable (hD : D.ChargesEdits)
include hD

theorem atEveryDepth_of_diffSequences (h : D.diffSequences as bs s = .ok ds s') :
    AtEveryDepth (MissesNoMatch D.sameLabel) ds := by
  rw [hD.eq_of_diffSequences h]
  exact atEveryDepth_bestScript (bestScript_missesNoMatch _ _) as bs

theorem atEveryDepth_of_diffTrees (h : D.diffTrees a b s = .ok d s') :
    AtEveryDepth (MissesNoMatch D.sameLabel) [d] := by
  refine .intro missesNoMatch_singleton fun l es hmem => ?_
  obtain ⟨-, ds, rfl, hds⟩ | ⟨-, rfl⟩ := cases_of_diffTrees h
  · cases List.mem_singleton.1 hmem
    exact hD.atEveryDepth_of_diffSequences hds
  · cases List.mem_singleton.1 hmem

/-- A differ at the edit cost is given by its labels, its settings and its ceiling. -/
theorem eq_atEditCost : D = atEditCost D.sameLabel D.settings D.ceiling := by
  obtain ⟨same, cost, settings, ceiling⟩ := D
  obtain rfl : cost = fun d => liftM (d.editCost? ceiling) := funext hD
  rfl

end ChargesEdits

/-- **The normal form of diffs.** A diff of two trees has a replacement if and only if the labels of
the roots are not the same, and then it is this replacement; scripts of two lists have none, at any
depth. At the edit cost, no run of edits loses and gains trees with the same label, in the script of
two lists and in the children of every matched node; and the calls return if no sum of costs can lie
above the ceiling. -/
theorem returned_normalForm (D : Differ (Attempt σ) ℓ) :
    (∀ a b, D.sameLabel a.label b.label = false →
      D.diffTrees a b = pure (.edit (.replace a b))) ∧
    (∀ a b d s s', D.diffTrees a b s = .ok d s' →
      (d.kinds.contains .replace = true ↔ D.sameLabel a.label b.label = false) ∧
      (D.ChargesEdits → AtEveryDepth (MissesNoMatch D.sameLabel) [d])) ∧
    (∀ as bs ds s s', D.diffSequences as bs s = .ok ds s' →
      (∀ d ∈ ds, d.kinds.contains .replace = false) ∧
      (D.ChargesEdits → AtEveryDepth (MissesNoMatch D.sameLabel) ds)) ∧
    (D.ChargesEdits →
      (∀ a b, a.size + b.size ≤ D.ceiling → ∃ d, D.diffTrees a b = pure d) ∧
      ∀ as bs, (as.map Tree.size).sum + (bs.map Tree.size).sum ≤ D.ceiling →
        ∃ ds, D.diffSequences as bs = pure ds) := by
  refine ⟨fun a b hl => diffTrees_of_label_ne hl, fun a b d s s' h => ?_,
    fun as bs ds s s' h => ?_, fun hD => ⟨fun a b hsize => ?_, fun as bs hsize => ?_⟩⟩
  · exact ⟨contains_replace_iff_of_diffTrees h, fun hD => hD.atEveryDepth_of_diffTrees h⟩
  · exact ⟨contains_replace_of_diffSequences h, fun hD => hD.atEveryDepth_of_diffSequences h⟩
  · obtain ⟨d, hd⟩ := exists_diffTrees_eq_pure (m := Attempt σ) D.sameLabel D.settings a b
    rw [hD.eq_atEditCost]
    exact ⟨d, hd D.ceiling hsize⟩
  · obtain ⟨ds, hds⟩ :=
      exists_diffSequences_eq_pure (m := Attempt σ) D.sameLabel D.settings as bs
    rw [← nodesAll_eq_sum_size, ← nodesAll_eq_sum_size] at hsize
    rw [hD.eq_atEditCost]
    exact ⟨ds, hds D.ceiling hsize⟩

/-- The differ at the edit cost for labels that match larger ones: not even equal ones are the
same, and it matters which of two labels is on the old side. -/
def ascending : Differ (Attempt Instant) Nat := atEditCost (fun l k => decide (l < k)) {} maxCost

theorem returned_normalForm_ascending :
    ascending.diffTrees (.leaf 2) (.leaf 2) = pure (.edit (.replace (.leaf 2) (.leaf 2))) ∧
      (∃ d, ascending.diffTrees (.node 1 [.leaf 3]) (.node 2 [.leaf 1]) = pure d ∧
        d = .merge 1 [.edit (.delete (.leaf 3)), .edit (.insert (.leaf 1))] ∧
        ¬d.kinds.contains .replace = true ∧
        AtEveryDepth (MissesNoMatch ascending.sameLabel) [d]) ∧
      ∃ ds, ascending.diffSequences [.leaf 3, .leaf 2] [.leaf 1, .leaf 3] = pure ds ∧
        ds = [.edit (.delete (.leaf 3)), .edit (.insert (.leaf 1)), .merge 2 []] ∧
        (∀ d ∈ ds, d.kinds.contains .replace = false) ∧
        AtEveryDepth (MissesNoMatch ascending.sameLabel) ds := by
  obtain ⟨hother, htrees, hsequences, hreturn⟩ := returned_normalForm ascending
  have hcharges : ascending.ChargesEdits := fun _ => rfl
  obtain ⟨d, hd⟩ := (hreturn hcharges).1 (.node 1 [.leaf 3]) (.node 2 [.leaf 1])
    (by simp [Tree.size_eq_nodes, Tree.leaf, ascending, atEditCost, maxCost])
  obtain ⟨ds, hds⟩ := (hreturn hcharges).2 [.leaf 3, .leaf 2] [.leaf 1, .leaf 3]
    (by simp [Tree.size_eq_nodes, Tree.leaf, ascending, atEditCost, maxCost])
  have hrun := congrFun hd ⟨0⟩
  have hrun' := congrFun hds ⟨0⟩
  have hmatched := htrees _ _ d ⟨0⟩ ⟨0⟩ hrun
  have hscript := hsequences _ _ ds ⟨0⟩ ⟨0⟩ hrun'
  refine ⟨hother _ _ rfl, ⟨d, hd, ?_, fun hreplace => ?_, hmatched.2 hcharges⟩, ds, hds, ?_,
    hscript.1, hscript.2 hcharges⟩
  · rw [hcharges.eq_of_diffTrees hrun]
    decide +kernel
  · have hlabel := hmatched.1.1 hreplace
    cases hlabel
  · rw [hcharges.eq_of_diffSequences hrun']
    decide +kernel

end Differ

end TreeDiff
