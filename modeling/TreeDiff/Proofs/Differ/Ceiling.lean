import TreeDiff.Proofs.Diff.Costs
import TreeDiff.Proofs.Differ.Nested
import TreeDiff.Proofs.Grid.Calls

/-!
# High enough ceilings

At the edit cost, no sum of a search is larger than the number of nodes of the trees whose scripts
it adds up: losing and gaining all of them is the most that a script can cost, and a match costs no
more than the loss and the gain of its two trees. This is so for every equality of labels, in the
searches inside other searches, and also after one of them has run out of time. So the ceiling does
not matter if all nodes can be counted below it.

* `Diff.Bounded`: a script that costs what its diffs cost, and no more than the nodes of its sides.
* `Differ.AlikeButCeiling`: two differs at the edit cost that differ in their ceilings at most. If
  both ceilings are high enough, their matches and their searches are related by every simulation
  that relates the questions before the positions, `Differ.AlikeButCeiling.rel_match?` and
  `Differ.AlikeButCeiling.rel_searchScript`.
* `Differ.atEditCost`: the differ at the edit cost, for an equality of labels and a ceiling.
* `Differ.Ample`: a number from which on the ceiling does not matter to a call with a deadline.
* `Differ.nodes_ample`: the number of nodes is ample for all calls.
-/

namespace TreeDiff

variable {ℓ γ σ τ : Type} {a b : Tree ℓ} {as bs : List (Tree ℓ)}

/-! ## Scripts that cost no more than their nodes -/

namespace Diff

/-- The script costs what its diffs cost, and no more than all trees of the two lists have nodes. -/
structure Bounded (as bs : List (Tree ℓ)) (s : Script (Diff ℓ)) : Prop where
  total_eq : s.total = editCostAll s.edits
  total_le : s.total ≤ Tree.nodesAll as + Tree.nodesAll bs

namespace Bounded

variable {s : Script (Diff ℓ)} {d : Diff ℓ}

theorem empty : Bounded ([] : List (Tree ℓ)) [] .empty where
  total_eq := by simp
  total_le := by simp

theorem delete (h : Bounded as bs s) :
    Bounded (a :: as) bs (s.cons (.edit (.delete a)) a.size) where
  total_eq := by simp [h.total_eq]
  total_le := by
    have hle := h.total_le
    simp only [Script.total_cons, Tree.nodesAll_cons, Tree.size_eq_nodes]
    omega

theorem insert (h : Bounded as bs s) :
    Bounded as (b :: bs) (s.cons (.edit (.insert b)) b.size) where
  total_eq := by simp [h.total_eq]
  total_le := by
    have hle := h.total_le
    simp only [Script.total_cons, Tree.nodesAll_cons, Tree.size_eq_nodes]
    omega

theorem matched (h : Bounded as bs s) (hd : d.editCost ≤ a.size + b.size) :
    Bounded (a :: as) (b :: bs) (s.cons d d.editCost) where
  total_eq := by simp [h.total_eq]
  total_le := by
    have hle := h.total_le
    simp only [Tree.size_eq_nodes] at hd
    simp only [Script.total_cons, Tree.nodesAll_cons]
    omega

/-- All nodes of the suffixes of two lists are counted below a bound of the lists. -/
theorem total_le_of_suffix {as' bs' : List (Tree ℓ)} {c : Nat} (h : Bounded as' bs' s)
    (has : as' <:+ as) (hbs : bs' <:+ bs) (hc : Tree.nodesAll as + Tree.nodesAll bs ≤ c) :
    s.total ≤ c :=
  h.total_le.trans ((Nat.add_le_add (Tree.nodesAll_le_of_suffix has)
    (Tree.nodesAll_le_of_suffix hbs)).trans hc)

end Bounded

end Diff

/-- Costs below both ceilings are added up in the same way. -/
theorem Simulation.rel_prepend {m n : Type → Type} [Monad m] [Monad n]
    [MonadLiftT (Except Fault) m] [LawfulMonadLiftT (Except Fault) m] [MonadLiftT (Except Fault) n]
    [LawfulMonadLiftT (Except Fault) n] {δ : Type} (S : Simulation m n) {Q : Script δ → Prop}
    {s : Script δ} {d : δ} {k c c' : Nat} (hQ : Q (s.cons d k)) (hc : (s.cons d k).total ≤ c)
    (hc' : (s.cons d k).total ≤ c') :
    (S.comap (Except Fault) (Except Fault)).Rel Q (s.prepend c d k) (s.prepend c' d k) := by
  rw [Script.prepend_eq_ok_iff.2 ⟨hc, rfl⟩, Script.prepend_eq_ok_iff.2 ⟨hc', rfl⟩]
  exact (S.comap (Except Fault) (Except Fault)).pure hQ

theorem Interrupt.sameAnswer_never {m : Type → Type} [Monad m] [LawfulMonad m]
    (solved total : Nat) : (Simulation.sameAnswer m).Rel (fun _ => True)
      (Interrupt.never solved total) (Interrupt.never solved total) :=
  ⟨none, trivial, rfl, rfl⟩

namespace Differ

/-! ## Two ceilings -/

section

variable {m : Type → Type} [Monad m] [MonadLiftT (Except Fault) m]

/-- Two differs at the edit cost that differ in their ceilings at most. -/
structure AlikeButCeiling (D D' : Differ m ℓ) : Prop where
  sameLabel_eq : D'.sameLabel = D.sameLabel
  tieBreak_eq : D'.settings.tieBreak = D.settings.tieBreak
  charges : D.ChargesEdits
  charges' : D'.ChargesEdits

variable [LawfulMonad m] [LawfulMonadLiftT (Except Fault) m] {D D' : Differ m ℓ}

section

variable (S : Simulation (ExceptT τ (Reporting τ m)) (ExceptT τ (Reporting τ m)))
  {interrupt : Interrupt m τ} (h : AlikeButCeiling D D')
include h

/-- An edit that costs no more than both ceilings. -/
theorem AlikeButCeiling.rel_cost {d : Diff ℓ} (hc : d.editCost ≤ D.ceiling)
    (hc' : d.editCost ≤ D'.ceiling) :
    (S.comap (Reporting τ m) (Reporting τ m)).Rel (fun k => k = d.editCost)
      ((D.treePolicy interrupt).cost d) ((D'.treePolicy interrupt).cost d) := by
  rw [h.charges.treePolicy_cost interrupt hc, h.charges'.treePolicy_cost interrupt hc']
  exact (S.comap (Reporting τ m) (Reporting τ m)).pure rfl

/-- A position with scripts at its neighbours that cost no more than their nodes. -/
theorem AlikeButCeiling.rel_cell (tie : TieBreak) {as' bs' : List (Tree ℓ)}
    {lost gained both : Script (Diff ℓ)} (has : a :: as' <:+ as) (hbs : b :: bs' <:+ bs)
    (hcompare : (S.comap (Reporting τ m) (Reporting τ m)).Rel
      (fun o => ∀ d, o = some d → d.editCost ≤ a.size + b.size) (D.match? interrupt a b)
      (D'.match? interrupt a b))
    (hlost : Diff.Bounded as' (b :: bs') lost) (hgained : Diff.Bounded (a :: as') bs' gained)
    (hboth : Diff.Bounded as' bs' both) (hc : Tree.nodesAll as + Tree.nodesAll bs ≤ D.ceiling)
    (hc' : Tree.nodesAll as + Tree.nodesAll bs ≤ D'.ceiling) :
    (S.comap (Reporting τ m) (Reporting τ m)).Rel (Diff.Bounded (a :: as') (b :: bs'))
      ((D.treePolicy interrupt).cell tie ⟨a, .edit (.delete a), a.size⟩
        ⟨b, .edit (.insert b), b.size⟩ lost gained both)
      ((D'.treePolicy interrupt).cell tie ⟨a, .edit (.delete a), a.size⟩
        ⟨b, .edit (.insert b), b.size⟩ lost gained both) := by
  have ha := Tree.size_le_nodesAll (has.subset List.mem_cons_self)
  have hb := Tree.size_le_nodesAll (hbs.subset List.mem_cons_self)
  have hprepend : ∀ {d : Diff ℓ} {k : Nat} {s : Script (Diff ℓ)},
      Diff.Bounded (a :: as') (b :: bs') (s.cons d k) →
        (S.comap (Except Fault) (Except Fault)).Rel (Diff.Bounded (a :: as') (b :: bs'))
          (s.prepend D.ceiling d k) (s.prepend D'.ceiling d k) := fun hs =>
    S.rel_prepend hs (hs.total_le_of_suffix has hbs hc) (hs.total_le_of_suffix has hbs hc')
  refine ((S.comap (Reporting τ m) (Reporting τ m)).tracking Unit).cell (D.treePolicy interrupt)
    (D'.treePolicy interrupt) (A := fun _ => True) (B := fun _ => True)
    (Q := fun d => d.editCost ≤ a.size + b.size) (K := fun d k => k = d.editCost) tie
    (hprepend hlost.delete) (hprepend hgained.insert) hcompare (fun d hd => ?_) ?_
  · have hd' := hd.trans (Nat.add_le_add ha hb)
    exact h.rel_cost S (hd'.trans hc) (hd'.trans hc')
  · rintro d _ hd rfl
    exact hprepend (hboth.matched hd)

/-- The searches whose comparisons are related, and find diffs that cost no more than the trees have
nodes. -/
theorem AlikeButCeiling.searchRule
    (hcheck : ∀ solved total, S.Rel (fun _ => True) ((asking interrupt).check solved total)
      ((asking interrupt).check solved total))
    (hcompare : ∀ a ∈ as, ∀ b ∈ bs, (S.comap (Reporting τ m) (Reporting τ m)).Rel
      (fun o => ∀ d, o = some d → d.editCost ≤ a.size + b.size) (D.match? interrupt a b)
      (D'.match? interrupt a b))
    (hc : Tree.nodesAll as + Tree.nodesAll bs ≤ D.ceiling)
    (hc' : Tree.nodesAll as + Tree.nodesAll bs ≤ D'.ceiling) :
    SearchRule S (D.treePolicy interrupt) (D'.treePolicy interrupt) D.settings.tieBreak
      (asking interrupt) (asking interrupt) as bs (fun d k => k = d.editCost) Diff.Bounded where
  delete_eq := (D'.treePolicy_delete interrupt).trans (D.treePolicy_delete interrupt).symm
  insert_eq := (D'.treePolicy_insert interrupt).trans (D.treePolicy_insert interrupt).symm
  check := hcheck
  loss := by
    intro a ha
    have hle := (Diff.editCost_delete_le ha).trans (Nat.le_add_right _ (Tree.nodesAll bs))
    exact h.rel_cost S (hle.trans hc) (hle.trans hc')
  gain := by
    intro b hb
    have hle := (Diff.editCost_insert_le hb).trans (Nat.le_add_left _ (Tree.nodesAll as))
    exact h.rel_cost S (hle.trans hc) (hle.trans hc')
  done := .empty
  delete := by
    intro a as' k s has hk hs
    obtain rfl : k = a.size := hk.trans (Diff.editCost_delete _)
    have hs' := hs.delete (a := a)
    exact S.rel_prepend hs' (hs'.total_le_of_suffix has List.nil_suffix hc)
      (hs'.total_le_of_suffix has List.nil_suffix hc')
  insert := by
    intro b bs' k s hbs hk hs
    obtain rfl : k = b.size := hk.trans (Diff.editCost_insert _)
    have hs' := hs.insert (b := b)
    exact S.rel_prepend hs' (hs'.total_le_of_suffix List.nil_suffix hbs hc)
      (hs'.total_le_of_suffix List.nil_suffix hbs hc')
  cell := by
    intro a as' b bs' k k' lost gained both has hbs hk hk' hlost hgained hboth
    obtain rfl : k = a.size := hk.trans (Diff.editCost_delete _)
    obtain rfl : k' = b.size := hk'.trans (Diff.editCost_insert _)
    have hab := hcompare a (has.subset List.mem_cons_self) b (hbs.subset List.mem_cons_self)
    exact h.rel_cell S _ has hbs hab hlost hgained hboth hc hc'

end

section

variable (S : Simulation m m) {interrupt : Interrupt m τ} (h : AlikeButCeiling D D')
  (hask : ∀ solved total,
    S.Rel (fun _ => True) (interrupt solved total) (interrupt solved total))
include h hask

/-- A search whose comparisons are related and find diffs that cost no more than the trees have
nodes finds a script that costs no more than all trees have nodes. -/
theorem AlikeButCeiling.rel_searchScript_of_match?
    (hcompare : ∀ a ∈ as, ∀ b ∈ bs, (S.stateT (Option τ)).Rel
      (fun o => ∀ d, o = some d → d.editCost ≤ a.size + b.size) (D.match? interrupt a b)
      (D'.match? interrupt a b))
    (hc : Tree.nodesAll as + Tree.nodesAll bs ≤ D.ceiling)
    (hc' : Tree.nodesAll as + Tree.nodesAll bs ≤ D'.ceiling) :
    ((S.stateT (Option τ)).exceptT τ).Rel (Diff.Bounded as bs)
      (D.searchScript interrupt (D.candidates interrupt as) bs)
      (D'.searchScript interrupt (D'.candidates interrupt as) bs) := by
  rw [searchScript_candidates, searchScript_candidates, h.tieBreak_eq]
  refine (h.searchRule _ ?_ ?_ hc hc').search
  · exact fun solved total => (S.stateT _).check (S.stateT_liftM (hask solved total))
  · exact fun a ha b hb => (S.stateT _).exceptT_liftM (hcompare a ha b hb)

/-- A match costs no more than its trees have nodes. -/
theorem AlikeButCeiling.rel_match? (a b : Tree ℓ) (hc : a.size + b.size ≤ D.ceiling)
    (hc' : a.size + b.size ≤ D'.ceiling) :
    (S.stateT (Option τ)).Rel (fun o => ∀ d, o = some d → d.editCost ≤ a.size + b.size)
      (D.match? interrupt a b) (D'.match? interrupt a b) := by
  induction a using Tree.induct generalizing b with
  | step l cs ih =>
    have hl := (Tree.node l cs).size_eq_nodesAll_children
    have hb := b.size_eq_nodesAll_children
    rw [Tree.children_node] at hl
    have hchildren : Tree.nodesAll cs + Tree.nodesAll b.children ≤ (Tree.node l cs).size + b.size :=
      by omega
    have hmatch : ∀ a ∈ cs, ∀ b' ∈ b.children, (S.stateT (Option τ)).Rel
        (fun o => ∀ d, o = some d → d.editCost ≤ a.size + b'.size) (D.match? interrupt a b')
        (D'.match? interrupt a b') := by
      intro a ha b' hb'
      have hle := Nat.add_le_add (Tree.size_le_nodesAll ha) (Tree.size_le_nodesAll hb')
      exact ih a ha b' (hle.trans (hchildren.trans hc)) (hle.trans (hchildren.trans hc'))
    have hsearch := h.rel_searchScript_of_match? S hask hmatch (hchildren.trans hc)
      (hchildren.trans hc')
    rw [match?_node, match?_node, ← candidates_eq_map, ← candidates_eq_map]
    refine Simulation.mono _ (stateT_matchNode S (l := l) h.sameLabel_eq hsearch) ?_
    rintro o ho d hd
    obtain ⟨-, script, hscript, rfl⟩ := ho d hd
    have hcost : (Diff.merge l script.edits).editCost = script.total := by
      rw [Diff.editCost_merge, hscript.total_eq]
    rw [hcost]
    exact hscript.total_le.trans hchildren

theorem AlikeButCeiling.rel_searchScript (hc : Tree.nodesAll as + Tree.nodesAll bs ≤ D.ceiling)
    (hc' : Tree.nodesAll as + Tree.nodesAll bs ≤ D'.ceiling) :
    ((S.stateT (Option τ)).exceptT τ).Rel (Diff.Bounded as bs)
      (D.searchScript interrupt (D.candidates interrupt as) bs)
      (D'.searchScript interrupt (D'.candidates interrupt as) bs) := by
  refine h.rel_searchScript_of_match? S hask (fun a ha b hb => ?_) hc hc'
  have hle := Nat.add_le_add (Tree.size_le_nodesAll ha) (Tree.size_le_nodesAll hb)
  exact h.rel_match? S hask a b (hle.trans hc) (hle.trans hc')

end

/-! ## Calls without a limit of time -/

/-- The differ at the edit cost, for an equality of labels, with costs up to the ceiling. -/
def atEditCost (same : ℓ → ℓ → Bool) (settings : Settings) (ceiling : Nat) : Differ m ℓ where
  sameLabel := same
  cost d := liftM (d.editCost? ceiling)
  settings := settings
  ceiling := ceiling

variable (same : ℓ → ℓ → Bool) (settings : Settings)

omit [Monad m] [LawfulMonad m] [LawfulMonadLiftT (Except Fault) m] in
theorem alikeButCeiling_atEditCost (c c' : Nat) :
    AlikeButCeiling (atEditCost same settings c : Differ m ℓ) (atEditCost same settings c') where
  sameLabel_eq := rfl
  tieBreak_eq := rfl
  charges _ := rfl
  charges' _ := rfl

omit [LawfulMonad m] [MonadLiftT (Except Fault) m] [LawfulMonadLiftT (Except Fault) m] in
/-- Computations that give the same answer as the first one have an answer in common. -/
theorem exists_forall_eq_pure {n : Nat} {x : Nat → m γ}
    (h : ∀ ceiling, n ≤ ceiling → ∃ a, True ∧ x n = pure a ∧ x ceiling = pure a) :
    ∃ a, ∀ ceiling, n ≤ ceiling → x ceiling = pure a := by
  obtain ⟨a, -, ha, -⟩ := h n (Nat.le_refl n)
  refine ⟨a, fun ceiling hc => ?_⟩
  obtain ⟨a', -, hn, hceiling⟩ := h ceiling hc
  rw [hceiling, ← hn, ha]

theorem exists_match?_eq_pure (a b : Tree ℓ) :
    ∃ p, ∀ ceiling, a.size + b.size ≤ ceiling →
      ((atEditCost same settings ceiling : Differ m ℓ).match? .never a b).run none = pure p := by
  refine exists_forall_eq_pure fun ceiling hc => ?_
  have halike := alikeButCeiling_atEditCost (m := m) same settings (a.size + b.size) ceiling
  have h := halike.rel_match? (Simulation.sameAnswer m) Interrupt.sameAnswer_never a b
    (Nat.le_refl _) hc none
  exact (Simulation.sameAnswer m).mono h fun _ _ => trivial

theorem exists_searchScript_eq_pure (as bs : List (Tree ℓ)) :
    ∃ p, ∀ ceiling, Tree.nodesAll as + Tree.nodesAll bs ≤ ceiling →
      ((atEditCost same settings ceiling : Differ m ℓ).searchScript .never
        ((atEditCost same settings ceiling).candidates .never as) bs).run.run none = pure p := by
  refine exists_forall_eq_pure fun ceiling hc => ?_
  have halike := alikeButCeiling_atEditCost (m := m) same settings
    (Tree.nodesAll as + Tree.nodesAll bs) ceiling
  have h := halike.rel_searchScript (Simulation.sameAnswer m) Interrupt.sameAnswer_never
    (Nat.le_refl _) hc none
  exact (Simulation.sameAnswer m).mono h fun _ _ => trivial

theorem exists_compare_eq_pure (a b : Tree ℓ) :
    ∃ o, ∀ ceiling, a.size + b.size ≤ ceiling →
      (atEditCost same settings ceiling : Differ m ℓ).compare a b = pure o := by
  obtain ⟨p, hp⟩ := exists_match?_eq_pure (m := m) same settings a b
  refine ⟨p.1, fun ceiling hc => ?_⟩
  rw [compare, StateT.run'_eq, hp ceiling hc, map_pure]

theorem exists_diffTrees_eq_pure (a b : Tree ℓ) :
    ∃ d, ∀ ceiling, a.size + b.size ≤ ceiling →
      (atEditCost same settings ceiling : Differ m ℓ).diffTrees a b = pure d := by
  obtain ⟨o, ho⟩ := exists_compare_eq_pure (m := m) same settings a b
  refine ⟨o.getD (.edit (.replace a b)), fun ceiling hc => ?_⟩
  rw [diffTrees, ho ceiling hc, pure_bind]

theorem exists_diffSequences_eq_pure (as bs : List (Tree ℓ)) :
    ∃ ds, ∀ ceiling, Tree.nodesAll as + Tree.nodesAll bs ≤ ceiling →
      (atEditCost same settings ceiling : Differ m ℓ).diffSequences as bs = pure ds := by
  obtain ⟨p, hp⟩ := exists_searchScript_eq_pure (m := m) same settings as bs
  obtain ⟨e | script, r⟩ := p
  · exact e.elim
  · refine ⟨script.edits, fun ceiling hc => ?_⟩
    rw [diffSequences, StateT.run'_eq, uninterrupted, StateT.run_bind, hp ceiling hc]
    simp

end

/-! ## Calls with a limit of time -/

/-- From `n` on the ceiling does not matter to the call: it does the same under all such ceilings,
and returns if and only if the limit of its time can be computed. -/
def Ample (settings : Settings) (clock : Attempt σ Instant) (n : Nat)
    (call : Nat → ExceptT Timeout (Attempt σ) γ) : Prop :=
  ∀ ceiling, n ≤ ceiling → call ceiling = call n ∧
    ∀ s, (∃ result s', (call ceiling).run s = .ok result s') ↔
      ∃ limit s', settings.limit clock s = .ok limit s'

/-- Calls whose searches return the same. -/
theorem ample_of_agreeing {settings : Settings} {clock : Attempt σ Instant} {n : Nat}
    {rest : Nat → Option Instant → ExceptT Timeout (Attempt σ) γ}
    (h : ∀ ceiling, n ≤ ceiling → ∀ limit, ((Attempt.agreeing σ).exceptT Timeout).Rel
      (fun _ => True) (rest n limit) (rest ceiling limit)) :
    Ample settings clock n (fun ceiling => do
      let limit ← settings.limit (liftM clock : ExceptT Timeout (Attempt σ) Instant)
      rest ceiling limit) := by
  intro ceiling hc
  have hrun : ∀ ceiling s, (do
      let limit ← settings.limit (liftM clock : ExceptT Timeout (Attempt σ) Instant)
      rest ceiling limit).run s = match settings.limit clock s with
        | .ok limit s' => (rest ceiling limit).run s'
        | .error e s' => .error e s' := by
    intro ceiling s
    rw [Settings.limit_liftM, Attempt.run_liftM_bind]
    cases settings.limit clock s <;> rfl
  constructor
  · refine ExceptT.ext (funext fun s => ?_)
    rw [hrun, hrun]
    cases settings.limit clock s with
    | error e s' => rfl
    | ok limit s' =>
      obtain ⟨result, s'', -, hn, hceiling⟩ := h ceiling hc limit s'
      exact hceiling.trans hn.symm
  · intro s
    rw [hrun]
    cases settings.limit clock s with
    | error e s' => simp
    | ok limit s' =>
      obtain ⟨result, s'', -, -, hceiling⟩ := h ceiling hc limit s'
      exact ⟨fun _ => ⟨limit, s', rfl⟩, fun _ => ⟨result, s'', hceiling⟩⟩

section

variable (same : ℓ → ℓ → Bool) (settings : Settings) {clock : Attempt σ Instant}
  (hclock : ∀ s, ∃ now s', clock s = .ok now s')
include hclock

theorem ample_diffTreesWithin (a b : Tree ℓ) :
    Ample settings clock (a.size + b.size) fun ceiling =>
      (atEditCost same settings ceiling).diffTreesWithin clock a b := by
  refine ample_of_agreeing fun ceiling hc limit => ?_
  have hask := (Attempt.agreeing σ).deadline (Attempt.agreeing_self hclock) limit
  have halike := alikeButCeiling_atEditCost (m := Attempt σ) same settings (a.size + b.size)
    ceiling
  have h := halike.rel_match? (Attempt.agreeing σ) hask a b (Nat.le_refl _) hc none
  refine Simulation.bind _ ((Attempt.agreeing σ).exceptT_liftM h) fun p _ => ?_
  obtain ⟨o, _ | t⟩ := p
  · exact Simulation.pure _ trivial
  · exact Simulation.exceptT_throw _ _ t

theorem ample_diffSequencesWithin (as bs : List (Tree ℓ)) :
    Ample settings clock (Tree.nodesAll as + Tree.nodesAll bs) fun ceiling =>
      (atEditCost same settings ceiling).diffSequencesWithin clock as bs := by
  refine ample_of_agreeing fun ceiling hc limit => ?_
  have hask := (Attempt.agreeing σ).deadline (Attempt.agreeing_self hclock) limit
  have halike := alikeButCeiling_atEditCost (m := Attempt σ) same settings
    (Tree.nodesAll as + Tree.nodesAll bs) ceiling
  have h := halike.rel_searchScript (Attempt.agreeing σ) hask (Nat.le_refl _) hc none
  refine Simulation.bind _ ((Attempt.agreeing σ).exceptT_liftM h) fun p _ => ?_
  obtain ⟨t | script, _ | t'⟩ := p
  · exact Simulation.exceptT_throw _ _ t
  · exact Simulation.exceptT_throw _ _ t
  · exact Simulation.pure _ trivial
  · exact Simulation.exceptT_throw _ _ t'

end

/-- **No sum lies above the number of nodes.** A sum above the ceiling would be a fault. At the edit
cost, for every equality of labels and every tie break, the ceiling does not matter from the number
of nodes of all trees on: under each of these ceilings the calls do the same, and return. With a
clock that can always be read, calls with a limit of time may end with a timeout, and only the
limit itself may be beyond what can be computed. -/
theorem nodes_ample (same : ℓ → ℓ → Bool) (settings : Settings) :
    (∀ a b : Tree ℓ,
      (∃ o, ∀ ceiling, a.size + b.size ≤ ceiling →
        (atEditCost same settings ceiling : Differ (Attempt σ) ℓ).compare a b = pure o) ∧
      (∃ d, ∀ ceiling, a.size + b.size ≤ ceiling →
        (atEditCost same settings ceiling : Differ (Attempt σ) ℓ).diffTrees a b = pure d) ∧
      ∀ clock : Attempt σ Instant, (∀ s, ∃ now s', clock s = .ok now s') →
        Ample settings clock (a.size + b.size) fun ceiling =>
          (atEditCost same settings ceiling).diffTreesWithin clock a b) ∧
    ∀ as bs : List (Tree ℓ),
      (∃ ds, ∀ ceiling, (as.map Tree.size).sum + (bs.map Tree.size).sum ≤ ceiling →
        (atEditCost same settings ceiling : Differ (Attempt σ) ℓ).diffSequences as bs = pure ds) ∧
      ∀ clock : Attempt σ Instant, (∀ s, ∃ now s', clock s = .ok now s') →
        Ample settings clock ((as.map Tree.size).sum + (bs.map Tree.size).sum) fun ceiling =>
          (atEditCost same settings ceiling).diffSequencesWithin clock as bs := by
  refine ⟨fun a b => ⟨?_, ?_, fun clock hclock => ?_⟩, fun as bs => ?_⟩
  · exact exists_compare_eq_pure same settings a b
  · exact exists_diffTrees_eq_pure same settings a b
  · exact ample_diffTreesWithin same settings hclock a b
  · rw [← Diff.nodesAll_eq_sum_size, ← Diff.nodesAll_eq_sum_size]
    exact ⟨exists_diffSequences_eq_pure same settings as bs,
      fun clock hclock => ample_diffSequencesWithin same settings hclock as bs⟩

theorem nodes_ample_parity :
    (∃ d, (atEditCost (fun l k => l % 2 == k % 2) {} maxCost :
        Differ (Attempt Instant) Nat).diffTrees (.node 1 [.leaf 2]) (.leaf 3) = pure d ∧
          d = .merge 1 [.edit (.delete (.leaf 2))]) ∧
      Ample { deadline := some ⟨1000⟩ } (get : Attempt Instant Instant)
        ((Tree.node 1 [.leaf 2]).size + (Tree.leaf 3).size) (fun ceiling =>
          (atEditCost (fun l k => l % 2 == k % 2)
            { deadline := some ⟨1000⟩ } ceiling).diffTreesWithin get (.node 1 [.leaf 2])
              (.leaf 3)) ∧
      Ample { deadline := some ⟨1000⟩ } (get : Attempt Instant Instant)
        (([Tree.leaf 1].map Tree.size).sum + ([Tree.leaf 2].map Tree.size).sum) fun ceiling =>
          (atEditCost (fun l k => l % 2 == k % 2)
            { deadline := some ⟨1000⟩ } ceiling).diffSequencesWithin get [.leaf 1] [.leaf 2] := by
  have hclock : ∀ s, ∃ now s', (get : Attempt Instant Instant) s = .ok now s' :=
    fun s => ⟨s, s, rfl⟩
  obtain ⟨d, hd⟩ :=
    ((nodes_ample (fun l k => l % 2 == k % 2) {}).1 (.node 1 [.leaf 2]) (.leaf 3)).2.1
  have hreturn := hd maxCost (by simp [Tree.size_eq_nodes, Tree.leaf, maxCost])
  have hrun : (atEditCost (fun l k => l % 2 == k % 2) {} maxCost :
      Differ (Attempt Instant) Nat).diffTrees (.node 1 [.leaf 2]) (.leaf 3) ⟨0⟩ =
        .ok (.merge 1 [.edit (.delete (.leaf 2))]) ⟨0⟩ := by decide +kernel
  have hsame := (congrFun hreturn (Instant.mk 0)).symm.trans hrun
  exact ⟨⟨d, hreturn, (EStateM.Result.ok.inj hsame).1⟩, ((nodes_ample _ _).1 _ _).2.2 _ hclock,
    ((nodes_ample _ _).2 _ _).2 _ hclock⟩

end Differ

end TreeDiff
