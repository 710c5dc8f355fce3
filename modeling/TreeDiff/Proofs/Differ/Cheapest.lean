import TreeDiff.Proofs.Diff.Costs
import TreeDiff.Proofs.Differ.Nested
import TreeDiff.Proofs.Grid.Exact

/-!
# The differ at the edit cost finds cheapest diffs

With equal labels as the same labels and the edit cost as price, a match of two trees is a cheapest
diff of them, and the script of two lists of trees is a cheapest list of diffs. An induction on the
first tree carries this from the children to the node: the searches of children are searches with
comparisons that give cheapest diffs.

* `Diff.Solves`: a script with given sides whose total is the least cost of such a list of diffs.
* `Diff.Found`: the answer of a comparison that finds a cheapest diff if the labels are equal.
* `Differ.IsStandard`: the differs with this equality and this price.
* `Differ.IsStandard.searchScript_solves`: a search whose comparisons give such answers finds a
  cheapest script.
* `Differ.IsStandard.match?_found`: all comparisons of the differ give such answers.
* `Differ.standard_isLeast`: the diffs of trees and of lists of trees are the cheapest ones.
-/

namespace TreeDiff

variable {ℓ : Type} {a b : Tree ℓ} {as bs : List (Tree ℓ)}

/-! ## Cheapest scripts of diffs -/

namespace Diff

/-- The script has the old sides `as` and the new sides `bs`, and costs what its diffs cost. -/
structure Between (as bs : List (Tree ℓ)) (s : Script (Diff ℓ)) : Prop where
  before : s.edits.filterMap before? = as
  after : s.edits.filterMap after? = bs
  total : s.total = editCostAll s.edits

/-- Moreover, no list of diffs with these sides costs less. -/
structure Solves (as bs : List (Tree ℓ)) (s : Script (Diff ℓ)) : Prop extends Between as bs s where
  least : IsLeast (costsAll as bs) s.total

/-- The answer for two trees is a cheapest diff if their labels are equal, and no diff otherwise. -/
inductive Found (a b : Tree ℓ) : Option (Diff ℓ) → Prop
  | same {d : Diff ℓ} : a.label = b.label → d.before? = some a → d.after? = some b →
    IsLeast (costs a b) d.editCost → Found a b (some d)
  | other : a.label ≠ b.label → Found a b none

variable {s lost gained both : Script (Diff ℓ)} {d : Diff ℓ}

namespace Between

theorem empty : Between ([] : List (Tree ℓ)) [] .empty where
  before := rfl
  after := rfl
  total := by simp

theorem delete (h : Between as bs s) :
    Between (a :: as) bs (s.cons (.edit (.delete a)) a.size) where
  before := by simp [h.before]
  after := by simp [h.after]
  total := by simp [h.total]

theorem insert (h : Between as bs s) :
    Between as (b :: bs) (s.cons (.edit (.insert b)) b.size) where
  before := by simp [h.before]
  after := by simp [h.after]
  total := by simp [h.total]

theorem matched (h : Between as bs s) (hbefore : d.before? = some a) (hafter : d.after? = some b) :
    Between (a :: as) (b :: bs) (s.cons d d.editCost) where
  before := by simp [hbefore, h.before]
  after := by simp [hafter, h.after]
  total := by simp [h.total]

end Between

namespace Solves

theorem empty : Solves ([] : List (Tree ℓ)) [] .empty := ⟨.empty, isLeast_costsAll_nil⟩

theorem delete (h : Solves as [] s) :
    Solves (a :: as) [] (s.cons (.edit (.delete a)) a.size) :=
  ⟨h.toBetween.delete, isLeast_costsAll_cons_nil h.least⟩

theorem insert (h : Solves [] bs s) :
    Solves [] (b :: bs) (s.cons (.edit (.insert b)) b.size) :=
  ⟨h.toBetween.insert, isLeast_costsAll_nil_cons h.least⟩

theorem total_le (h : Solves as bs s) : s.total ≤ Tree.nodesAll as + Tree.nodesAll bs :=
  le_nodesAll_of_isLeast h.least

end Solves

namespace Found

theorem editCost_le (h : Found a b (some d)) : d.editCost ≤ a.size + b.size := by
  cases h with
  | same _ _ _ hleast => exact hleast.2 (mem_costs_iff.2 (.inl rfl))

variable {o : Option (Diff ℓ)}

/-- The pick of any tie break lies between its sides, whatever it is. -/
theorem between (ho : Found a b o) (tie : TieBreak) (hlost : Between as (b :: bs) lost)
    (hgained : Between (a :: as) bs gained) (hboth : Between as bs both) :
    Between (a :: as) (b :: bs)
      (tie.pick (lost.cons (.edit (.delete a)) a.size) (gained.cons (.edit (.insert b)) b.size)
        (o.map fun d => both.cons d d.editCost)) := by
  refine tie.pick_ind hlost.delete hgained.insert fun s hs => ?_
  cases ho with
  | other hlabel => cases hs
  | same hlabel hbefore hafter =>
    cases hs
    exact hboth.matched hbefore hafter

/-- The pick of any tie break is a cheapest script, if the candidates go on with such scripts. -/
theorem solves (ho : Found a b o) (tie : TieBreak) (hlost : Solves as (b :: bs) lost)
    (hgained : Solves (a :: as) bs gained) (hboth : Solves as bs both) :
    Solves (a :: as) (b :: bs)
      (tie.pick (lost.cons (.edit (.delete a)) a.size) (gained.cons (.edit (.insert b)) b.size)
        (o.map fun d => both.cons d d.editCost)) := by
  refine ⟨ho.between tie hlost.toBetween hgained.toBetween hboth.toBetween, ?_⟩
  cases ho with
  | other hlabel =>
    rw [Option.map_none, TieBreak.total_pick_none]
    exact isLeast_costsAll_of_label_ne hlabel hlost.least hgained.least hboth.least
  | same hlabel hbefore hafter hleast =>
    rw [Option.map_some, TieBreak.total_pick_some]
    exact isLeast_costsAll_cons_cons hlost.least hgained.least hleast hboth.least

end Found

end Diff

/-! ## The searches of the differ -/

namespace Differ

variable {m : Type → Type} [Monad m] [LawfulMonad m] [MonadLiftT (Except Fault) m]
  [LawfulMonadLiftT (Except Fault) m] (D : Differ m ℓ)

/-- Equal labels are the same, and diffs cost what their edits cost. -/
structure IsStandard : Prop where
  sameLabel_iff : ∀ l k, D.sameLabel l k = true ↔ l = k
  cost_eq : ∀ d, D.cost d = liftM (d.editCost? D.ceiling)

section

variable {D} (hD : D.IsStandard)
include hD

omit [Monad m] [LawfulMonad m] [LawfulMonadLiftT (Except Fault) m] in
theorem IsStandard.chargesEdits : D.ChargesEdits := hD.cost_eq

/-- One position, from cheapest scripts for the positions it may move to. -/
theorem IsStandard.cell_solves (tie : TieBreak) {lost gained both : Script (Diff ℓ)}
    (hcompare : ∃ o, D.match? .never a b = pure o ∧ Diff.Found a b o)
    (hlost : Diff.Solves as (b :: bs) lost) (hgained : Diff.Solves (a :: as) bs gained)
    (hboth : Diff.Solves as bs both)
    (hsize : Tree.nodesAll (a :: as) + Tree.nodesAll (b :: bs) ≤ D.ceiling) :
    ∃ s, Diff.Solves (a :: as) (b :: bs) s ∧
      (D.treePolicy (.never : Interrupt m Empty)).cell tie ⟨a, .edit (.delete a), a.size⟩
        ⟨b, .edit (.insert b), b.size⟩ lost gained both = pure s := by
  obtain ⟨o, ho, hfound⟩ := hcompare
  refine ⟨_, hfound.solves tie hlost hgained hboth, ?_⟩
  have hlost_le := hlost.total_le
  have hgained_le := hgained.total_le
  have hboth_le := hboth.total_le
  have ha := a.size_eq_nodes
  have hb := b.size_eq_nodes
  simp only [Tree.nodesAll_cons] at hsize hlost_le hgained_le
  have hmatch : ∀ d, o = some d → d.editCost + both.total ≤ D.ceiling := by
    rintro d rfl
    have hd := hfound.editCost_le
    omega
  apply Policy.cell_eq_pure
  · exact ho
  · intro d hd
    exact hD.chargesEdits.treePolicy_cost _ (Nat.le_of_add_right_le (hmatch d hd))
  · show a.size + lost.total ≤ D.ceiling
    omega
  · show b.size + gained.total ≤ D.ceiling
    omega
  · exact hmatch

/-- The searches whose comparisons find cheapest diffs find cheapest scripts at every position. -/
theorem IsStandard.searchRule
    (hcompare : ∀ a ∈ as, ∀ b ∈ bs, ∃ o, D.match? .never a b = pure o ∧ Diff.Found a b o)
    (hsize : Tree.nodesAll as + Tree.nodesAll bs ≤ D.ceiling) :
    SearchRule (.answer _) (D.treePolicy (.never : Interrupt m Empty)) (D.treePolicy .never)
      D.settings.tieBreak (asking .never) (asking .never) as bs (fun d c => c = d.editCost)
      Diff.Solves where
  delete_eq := rfl
  insert_eq := rfl
  check solved total := ⟨(), trivial, passes_asking_never.check_eq solved total⟩
  loss := by
    intro a ha
    have hcost := (Diff.editCost_delete_le ha).trans (Nat.le_of_add_right_le hsize)
    exact Simulation.comap_answer rfl (hD.chargesEdits.treePolicy_cost _ hcost)
  gain := by
    intro b hb
    have hcost := (Diff.editCost_insert_le hb).trans (Nat.le_of_add_left_le hsize)
    exact Simulation.comap_answer rfl (hD.chargesEdits.treePolicy_cost _ hcost)
  done := .empty
  delete := by
    intro a as' c s has hc hs
    obtain rfl : c = a.size := hc.trans (Diff.editCost_delete _)
    have hs' := hs.delete (a := a)
    have hle := Nat.add_le_add (Tree.nodesAll_le_of_suffix has)
      (Tree.nodesAll_le_of_suffix (List.nil_suffix (l := bs)))
    refine Simulation.comap_answer hs' (Script.prepend_eq_ok_iff.2 ⟨?_, rfl⟩)
    exact (hs'.total_le.trans hle).trans hsize
  insert := by
    intro b bs' c s hbs hc hs
    obtain rfl : c = b.size := hc.trans (Diff.editCost_insert _)
    have hs' := hs.insert (b := b)
    have hle := Nat.add_le_add (Tree.nodesAll_le_of_suffix (List.nil_suffix (l := as)))
      (Tree.nodesAll_le_of_suffix hbs)
    refine Simulation.comap_answer hs' (Script.prepend_eq_ok_iff.2 ⟨?_, rfl⟩)
    exact (hs'.total_le.trans hle).trans hsize
  cell := by
    intro a as' b bs' c c' lost gained both has hbs hc hc' hlost hgained hboth
    obtain rfl : c = a.size := hc.trans (Diff.editCost_delete _)
    obtain rfl : c' = b.size := hc'.trans (Diff.editCost_insert _)
    have hab := hcompare a (has.subset List.mem_cons_self) b (hbs.subset List.mem_cons_self)
    have hle := Nat.add_le_add (Tree.nodesAll_le_of_suffix has) (Tree.nodesAll_le_of_suffix hbs)
    obtain ⟨s, hs, hcell⟩ :=
      hD.cell_solves D.settings.tieBreak hab hlost hgained hboth (hle.trans hsize)
    exact Simulation.comap_answer hs hcell

/-- A search whose comparisons find cheapest diffs finds a cheapest script. -/
theorem IsStandard.searchScript_solves
    (hcompare : ∀ a ∈ as, ∀ b ∈ bs, ∃ o, D.match? .never a b = pure o ∧ Diff.Found a b o)
    (hsize : Tree.nodesAll as + Tree.nodesAll bs ≤ D.ceiling) :
    ∃ s, D.searchScript .never (D.candidates .never as) bs = pure s ∧ Diff.Solves as bs s := by
  obtain ⟨s, hs, hsearch⟩ := (hD.searchRule hcompare hsize).search
  rw [searchScript_candidates]
  exact ⟨s, hsearch, hs⟩

omit [LawfulMonadLiftT (Except Fault) m] in
/-- A match finds a cheapest diff, if the search of the children finds a cheapest script. -/
theorem IsStandard.matchNode_found {l : ℓ} (hsearch : l = b.label →
      ∃ s, D.searchScript .never (D.candidates .never as) b.children = pure s ∧
        Diff.Solves as b.children s) :
    ∃ o, D.matchNode .never l (D.candidates .never as) b = pure o ∧
      Diff.Found (.node l as) b o := by
  by_cases hlabel : l = b.label
  · have hsame : D.sameLabel l b.label = true := (hD.sameLabel_iff _ _).2 hlabel
    obtain ⟨s, hs, hsolves⟩ := hsearch hlabel
    refine ⟨some (.merge l s.edits), ?_, .same hlabel ?_ ?_ ?_⟩
    · refine StateT.ext fun r => ?_
      -- there is no report
      obtain rfl : r = none := by cases r <;> trivial
      rw [D.run_matchNode_none .never _ hsame, hs]
      simp [settled]
    · rw [Diff.before?_merge, hsolves.before]
    · rw [Diff.after?_merge, hsolves.after, hlabel, Tree.node_label_children]
    · refine Diff.isLeast_costs_of_label_eq hlabel ?_
      rw [Diff.editCost_merge, ← hsolves.total]
      exact hsolves.least
  · have hsame : D.sameLabel l b.label = false := by
      rw [Bool.eq_false_iff]
      exact fun h => hlabel ((hD.sameLabel_iff _ _).1 h)
    refine ⟨none, ?_, .other hlabel⟩
    refine StateT.ext fun r => ?_
    rw [D.run_matchNode_of_ne .never _ hsame, StateT.run_pure]

/-- Every comparison of the differ finds a cheapest diff. -/
theorem IsStandard.match?_found (a b : Tree ℓ) (hsize : a.size + b.size ≤ D.ceiling) :
    ∃ o, D.match? .never a b = pure o ∧ Diff.Found a b o := by
  induction a using Tree.induct generalizing b with
  | step l cs ih =>
    have hl : (Tree.node l cs).size = Tree.nodesAll cs + 1 := Tree.size_eq_nodesAll_children _
    have hb := b.size_eq_nodesAll_children
    have hchildren : Tree.nodesAll cs + Tree.nodesAll b.children ≤ D.ceiling := by omega
    rw [match?_node, ← candidates_eq_map]
    refine hD.matchNode_found fun _ => hD.searchScript_solves (fun a ha b' hb' => ?_) hchildren
    have hle := Nat.add_le_add (Tree.size_le_nodesAll ha) (Tree.size_le_nodesAll hb')
    exact ih a ha b' (hle.trans hchildren)

theorem IsStandard.diffTrees_isLeast (hsize : a.size + b.size ≤ D.ceiling) :
    ∃ d, D.diffTrees a b = pure d ∧ d.before? = some a ∧ d.after? = some b ∧
      IsLeast (Diff.costs a b) d.editCost := by
  obtain ⟨o, ho, hfound⟩ := hD.match?_found a b hsize
  have hcompare : D.compare a b = pure o := by
    unfold compare
    rw [ho]
    exact map_pure _ _
  refine ⟨o.getD (.edit (.replace a b)), ?_, ?_⟩
  · unfold diffTrees
    rw [hcompare, pure_bind]
  · cases hfound with
    | same _ hbefore hafter hleast => exact ⟨hbefore, hafter, hleast⟩
    | other hlabel => exact ⟨by simp, by simp, by simpa using Diff.isLeast_costs_of_label_ne hlabel⟩

theorem IsStandard.diffSequences_isLeast
    (hsize : Tree.nodesAll as + Tree.nodesAll bs ≤ D.ceiling) :
    ∃ ds, D.diffSequences as bs = pure ds ∧ ds.filterMap Diff.before? = as ∧
      ds.filterMap Diff.after? = bs ∧ IsLeast (Diff.costsAll as bs) (Diff.editCostAll ds) := by
  have hcompare : ∀ a ∈ as, ∀ b ∈ bs, ∃ o, D.match? .never a b = pure o ∧ Diff.Found a b o := by
    intro a ha b hb
    have hle := Nat.add_le_add (Tree.size_le_nodesAll ha) (Tree.size_le_nodesAll hb)
    exact hD.match?_found a b (hle.trans hsize)
  obtain ⟨s, hs, hsolves⟩ := hD.searchScript_solves hcompare hsize
  refine ⟨s.edits, ?_, hsolves.before, hsolves.after, ?_⟩
  · unfold diffSequences
    rw [hs, uninterrupted_pure]
    simp
  · rw [← hsolves.total]
    exact hsolves.least

end

omit [Monad m] [LawfulMonad m] [LawfulMonadLiftT (Except Fault) m] in
theorem isStandard_standard [DecidableEq ℓ] (ceiling : Nat) (settings : Settings) :
    ({ standard ceiling with settings } : Differ m ℓ).IsStandard where
  sameLabel_iff _ _ := decide_eq_true_iff
  cost_eq _ := rfl

/-- **The diffs of trees and of lists of trees are the cheapest ones.** The cost does not depend on
the settings, and so not on the tie break. -/
theorem standard_isLeast [DecidableEq ℓ] (ceiling : Nat) :
    (∀ a b : Tree ℓ, a.size + b.size ≤ ceiling →
      ∃ c, IsLeast (Diff.costs a b) c ∧ ∀ settings, ∃ d,
        ({ standard ceiling with settings } : Differ m ℓ).diffTrees a b = pure d ∧
          d.before? = some a ∧ d.after? = some b ∧ d.editCost = c) ∧
      ∀ as bs : List (Tree ℓ), (as.map Tree.size).sum + (bs.map Tree.size).sum ≤ ceiling →
        ∃ c, IsLeast (Diff.costsAll as bs) c ∧ ∀ settings, ∃ ds,
          ({ standard ceiling with settings } : Differ m ℓ).diffSequences as bs = pure ds ∧
            ds.filterMap Diff.before? = as ∧ ds.filterMap Diff.after? = bs ∧
            Diff.editCostAll ds = c := by
  constructor
  · intro a b hsize
    have h := fun settings =>
      (isStandard_standard (m := m) ceiling settings).diffTrees_isLeast hsize
    obtain ⟨d, -, -, -, hleast⟩ := h {}
    refine ⟨d.editCost, hleast, fun settings => ?_⟩
    obtain ⟨d', hd', hbefore, hafter, hleast'⟩ := h settings
    exact ⟨d', hd', hbefore, hafter, hleast'.unique hleast⟩
  · intro as bs hsize
    have hnodes : Tree.nodesAll as + Tree.nodesAll bs ≤ ceiling := by
      rwa [Diff.nodesAll_eq_sum_size, Diff.nodesAll_eq_sum_size]
    have h := fun settings =>
      (isStandard_standard (m := m) ceiling settings).diffSequences_isLeast hnodes
    obtain ⟨ds, -, -, -, hleast⟩ := h {}
    refine ⟨_, hleast, fun settings => ?_⟩
    obtain ⟨ds', hds', hbefore, hafter, hleast'⟩ := h settings
    exact ⟨ds', hds', hbefore, hafter, hleast'.unique hleast⟩

theorem standard_isLeast_maxCost :
    (IsLeast (Diff.costs (.node 1 [.leaf 2, .leaf 3]) (.node 1 [.leaf 3])) 1 ∧
      ∀ settings, ∃ d,
        ({ standard maxCost with settings } : Differ (Except Fault) Nat).diffTrees
            (.node 1 [.leaf 2, .leaf 3]) (.node 1 [.leaf 3]) = pure d ∧
          d.before? = some (.node 1 [.leaf 2, .leaf 3]) ∧ d.after? = some (.node 1 [.leaf 3]) ∧
          d.editCost = 1) ∧
      IsLeast (Diff.costsAll [.leaf 2, .leaf 3] [.leaf 3]) 1 ∧ ∀ settings, ∃ ds,
        ({ standard maxCost with settings } : Differ (Except Fault) Nat).diffSequences
            [.leaf 2, .leaf 3] [.leaf 3] = pure ds ∧
          ds.filterMap Diff.before? = [.leaf 2, .leaf 3] ∧ ds.filterMap Diff.after? = [.leaf 3] ∧
          Diff.editCostAll ds = 1 := by
  have htrees : (standard maxCost : Differ (Except Fault) Nat).diffTrees
      (.node 1 [.leaf 2, .leaf 3]) (.node 1 [.leaf 3]) =
        pure (.merge 1 [.edit (.delete (.leaf 2)), .merge 3 []]) := by decide +kernel
  have hsequences : (standard maxCost : Differ (Except Fault) Nat).diffSequences
      [.leaf 2, .leaf 3] [.leaf 3] = pure [.edit (.delete (.leaf 2)), .merge 3 []] := by
    decide +kernel
  obtain ⟨c, hleast, hreturns⟩ := (standard_isLeast (m := Except Fault) maxCost).1
    (.node 1 [.leaf 2, .leaf 3]) (.node 1 [.leaf 3])
    (by simp [Tree.size_eq_nodes, Tree.leaf, maxCost])
  obtain ⟨c', hleast', hreturns'⟩ := (standard_isLeast (m := Except Fault) maxCost).2
    [.leaf 2, .leaf 3] [.leaf 3] (by simp [Tree.size_eq_nodes, Tree.leaf, maxCost])
  obtain rfl : c = 1 := by
    obtain ⟨d, hd, -, -, rfl⟩ := hreturns {}
    cases htrees.symm.trans hd
    simp [Tree.size_eq_nodes, Tree.leaf]
  obtain rfl : c' = 1 := by
    obtain ⟨ds, hds, -, -, rfl⟩ := hreturns' {}
    cases hsequences.symm.trans hds
    simp [Tree.size_eq_nodes, Tree.leaf]
  exact ⟨⟨hleast, hreturns⟩, hleast', hreturns'⟩

end Differ

end TreeDiff
