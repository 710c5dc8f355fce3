import TreeDiff.Differ
import TreeDiff.Proofs.Grid.Exact

/-!
# Searches inside searches

The searches of the differ compare trees by matching nodes, which starts the searches of their
children. What is true of all of them is shown by an induction on the first tree: it holds of a
search if it holds of its comparisons, and of the match of a node if it holds of the search of its
children.

* `Differ.searchScript_candidates`: a search of the differ, as a search on trees.
* `Differ.ChargesEdits`: the differs at the edit cost.
* `Differ.settled`: the answer and the report after the search of the children of a node.
  `Differ.run_matchNode_none` is the match of a node that is searched, `Differ.run_matchNode_some`
  and `Differ.run_matchNode_of_ne` are the matches of nodes that are not.
* `Differ.stateT_matchNode`: matches of nodes whose children are searched by related searches.
* `Differ.Related`: two differs whose steps are related by a simulation. So are then all their
  matches, `Differ.Related.match?`, and their searches, `Differ.Related.searchScript`.
-/

namespace TreeDiff.Differ

section

variable {m : Type → Type} [Monad m] [LawfulMonad m] [MonadLiftT (Except Fault) m] {ℓ τ : Type}
  (D : Differ m ℓ) (interrupt : Interrupt m τ)

/-! ## Searches on trees -/

/-- The policy of all searches, on trees in place of candidates. -/
def treePolicy : Policy (Reporting τ m) (Tree ℓ) (Tree ℓ) (Diff ℓ) :=
  D.policy.onFirst fun a => ⟨a, D.match? interrupt a⟩

omit [LawfulMonad m] in
theorem treePolicy_delete : (D.treePolicy interrupt).delete = fun a => .edit (.delete a) := rfl

omit [LawfulMonad m] in
theorem treePolicy_insert : (D.treePolicy interrupt).insert = fun b => .edit (.insert b) := rfl

theorem searchScript_candidates (as bs : List (Tree ℓ)) :
    D.searchScript interrupt (D.candidates interrupt as) bs =
      search (D.treePolicy interrupt) D.settings.tieBreak (asking interrupt) as bs := by
  rw [candidates_eq_map]
  exact search_map D.policy _ _ _ as bs

omit [MonadLiftT (Except Fault) m] in
theorem passes_asking_never :
    (asking .never : Interrupt (Reporting Empty m) Empty).Passes := by
  intro solved total
  exact liftM_pure _

/-! ## The edit cost as the price -/

/-- Diffs cost what their edits cost. -/
def ChargesEdits : Prop := ∀ d, D.cost d = liftM (d.editCost? D.ceiling)

section

variable {D} (hD : D.ChargesEdits) [LawfulMonadLiftT (Except Fault) m] {d : Diff ℓ}
include hD

omit [LawfulMonad m] in
theorem ChargesEdits.cost_eq_pure (h : d.editCost ≤ D.ceiling) : D.cost d = pure d.editCost := by
  have hcost : d.editCost? D.ceiling = pure d.editCost := by
    rw [Diff.editCost?_eq]
    exact withinCeiling_eq_ok_iff.2 ⟨h, rfl⟩
  rw [hD, hcost, liftM_pure]

theorem ChargesEdits.treePolicy_cost (h : d.editCost ≤ D.ceiling) :
    (D.treePolicy interrupt).cost d = pure d.editCost := by
  have hlift : (D.treePolicy interrupt).cost d = liftM (D.cost d) := rfl
  rw [hlift, hD.cost_eq_pure h, liftM_pure]

end

/-! ## The match of a node -/

/-- The answer for a node with the label `l` and the report, after the search of its children has
ended and left the report `r`. -/
def settled (l : ℓ) : Except τ (Script (Diff ℓ)) → Option τ → Option (Diff ℓ) × Option τ
  | .ok script, r => (some (.merge l script.edits), r)
  | .error t, _ => (none, some t)

variable {l : ℓ} (cs : List (Candidate (Reporting τ m) ℓ)) {b : Tree ℓ}

/-- Nodes with other labels are not searched. -/
theorem run_matchNode_of_ne (h : D.sameLabel l b.label = false) (r : Option τ) :
    (D.matchNode interrupt l cs b).run r = pure (none, r) := by
  unfold matchNode
  rw [StateT.run_bind, StateT.run_get, pure_bind, h]
  rfl

/-- While there is a report, no node is searched. -/
theorem run_matchNode_some (t : τ) :
    (D.matchNode interrupt l cs b).run (some t) = pure (none, some t) := by
  unfold matchNode
  rw [StateT.run_bind, StateT.run_get, pure_bind, Option.isSome_some, Bool.or_true]
  rfl

/-- The search of the children settles the answer. -/
theorem run_matchNode_none (h : D.sameLabel l b.label = true) :
    (D.matchNode interrupt l cs b).run none = (do
      let (x, r) ← (D.searchScript interrupt cs b.children).run.run none
      return settled l x r) := by
  unfold matchNode
  rw [StateT.run_bind, StateT.run_get, pure_bind, h]
  simp only [Bool.not_true, Option.isSome_none, Bool.or_false, Bool.false_eq_true, if_false,
    StateT.run_bind]
  refine bind_congr fun (x, r) => ?_
  cases x with
  | ok script => rfl
  | error t => simp [settled]

end

/-! ## Related differs -/

variable {m₁ m₂ : Type → Type} [Monad m₁] [LawfulMonad m₁] [MonadLiftT (Except Fault) m₁]
  [LawfulMonadLiftT (Except Fault) m₁] [Monad m₂] [LawfulMonad m₂] [MonadLiftT (Except Fault) m₂]
  [LawfulMonadLiftT (Except Fault) m₂] {ℓ τ₁ τ₂ : Type}

omit [LawfulMonadLiftT (Except Fault) m₁] [LawfulMonadLiftT (Except Fault) m₂] in
/-- Nodes are matched in the same way if the searches of their children are related. A match carries
the script of such a search. -/
theorem stateT_matchNode (S : Simulation m₁ m₂) {τ : Type} {D : Differ m₁ ℓ} {D' : Differ m₂ ℓ}
    {interrupt : Interrupt m₁ τ} {interrupt' : Interrupt m₂ τ} {l : ℓ} {b : Tree ℓ}
    {cs : List (Candidate (Reporting τ m₁) ℓ)} {cs' : List (Candidate (Reporting τ m₂) ℓ)}
    {Q : Script (Diff ℓ) → Prop} (hsame : D'.sameLabel = D.sameLabel)
    (h : ((S.stateT (Option τ)).exceptT τ).Rel Q (D.searchScript interrupt cs b.children)
      (D'.searchScript interrupt' cs' b.children)) :
    (S.stateT (Option τ)).Rel
      (fun o => ∀ d, o = some d →
        D.sameLabel l b.label = true ∧ ∃ script, Q script ∧ d = .merge l script.edits)
      (D.matchNode interrupt l cs b) (D'.matchNode interrupt' l cs' b) := by
  intro r
  cases hl : D.sameLabel l b.label with
  | false =>
    have hl' : D'.sameLabel l b.label = false := by rw [hsame, hl]
    rw [D.run_matchNode_of_ne interrupt cs hl, D'.run_matchNode_of_ne interrupt' cs' hl']
    exact S.pure nofun
  | true =>
    cases r with
    | some t =>
      rw [D.run_matchNode_some interrupt cs, D'.run_matchNode_some interrupt' cs']
      exact S.pure nofun
    | none =>
      have hl' : D'.sameLabel l b.label = true := by rw [hsame, hl]
      rw [D.run_matchNode_none interrupt cs hl, D'.run_matchNode_none interrupt' cs' hl']
      refine S.bind (h none) fun p hp => S.pure ?_
      obtain ⟨t | script, r'⟩ := p
      · exact nofun
      · rintro _ ⟨⟩
        exact ⟨rfl, script, hp script rfl, rfl⟩

/-- The steps of two differs are related. -/
structure Related (S : Simulation (ExceptT τ₁ (Reporting τ₁ m₁)) (ExceptT τ₂ (Reporting τ₂ m₂)))
    (D : Differ m₁ ℓ) (D' : Differ m₂ ℓ) (interrupt : Interrupt m₁ τ₁)
    (interrupt' : Interrupt m₂ τ₂) : Prop where
  tieBreak_eq : D'.settings.tieBreak = D.settings.tieBreak
  /-- The question before a position. -/
  check : ∀ solved total, S.Rel (fun _ => True) ((asking interrupt).check solved total)
    ((asking interrupt').check solved total)
  /-- The price of a diff. -/
  cost : ∀ d, (S.comap m₁ m₂).Rel (fun _ => True) (D.cost d) (D'.cost d)
  /-- The cost of a script with a diff in front. -/
  prepend : ∀ (d : Diff ℓ) c s, (S.comap (Except Fault) (Except Fault)).Rel (fun _ => True)
    (Script.prepend D.ceiling d c s) (Script.prepend D'.ceiling d c s)
  /-- The match of a node whose children are searched by related searches. -/
  node : ∀ {l cs cs' b}, S.Rel (fun _ => True) (D.searchScript interrupt cs b.children)
      (D'.searchScript interrupt' cs' b.children) →
    (S.comap (Reporting τ₁ m₁) (Reporting τ₂ m₂)).Rel (fun _ => True)
      (D.matchNode interrupt l cs b) (D'.matchNode interrupt' l cs' b)

namespace Related

variable {S : Simulation (ExceptT τ₁ (Reporting τ₁ m₁)) (ExceptT τ₂ (Reporting τ₂ m₂))}
  {D : Differ m₁ ℓ} {D' : Differ m₂ ℓ} {interrupt : Interrupt m₁ τ₁}
  {interrupt' : Interrupt m₂ τ₂} (h : Related S D D' interrupt interrupt')
include h

/-- Searches are related if their comparisons are. -/
theorem searchRule {as bs : List (Tree ℓ)}
    (hcompare : ∀ a ∈ as, ∀ b ∈ bs, (S.comap (Reporting τ₁ m₁) (Reporting τ₂ m₂)).Rel
      (fun _ => True) (D.match? interrupt a b) (D'.match? interrupt' a b)) :
    SearchRule S (D.treePolicy interrupt) (D'.treePolicy interrupt') D.settings.tieBreak
      (asking interrupt) (asking interrupt') as bs (fun _ _ => True) (fun _ _ _ => True) where
  delete_eq := rfl
  insert_eq := rfl
  check := h.check
  loss _ _ := h.cost _
  gain _ _ := h.cost _
  done := trivial
  delete _ _ _ := h.prepend _ _ _
  insert _ _ _ := h.prepend _ _ _
  cell := by
    intro a as' b bs' c c' lost gained both ha hb _ _ _ _ _
    have hab : (S.comap (Reporting τ₁ m₁) (Reporting τ₂ m₂)).Rel (fun o => ∀ d, o = some d → True)
        (D.match? interrupt a b) (D'.match? interrupt' a b) := by
      simpa using hcompare a (ha.subset List.mem_cons_self) b (hb.subset List.mem_cons_self)
    exact ((S.comap (Reporting τ₁ m₁) (Reporting τ₂ m₂)).tracking Unit).cell (A := fun _ => True)
      (B := fun _ => True) _ _ _ (h.prepend _ _ _) (h.prepend _ _ _) hab
      (fun d _ => h.cost d) fun d c _ _ => h.prepend d c both

theorem searchScript_of_match? {as bs : List (Tree ℓ)}
    (hcompare : ∀ a ∈ as, ∀ b ∈ bs, (S.comap (Reporting τ₁ m₁) (Reporting τ₂ m₂)).Rel
      (fun _ => True) (D.match? interrupt a b) (D'.match? interrupt' a b)) :
    S.Rel (fun _ => True) (D.searchScript interrupt (D.candidates interrupt as) bs)
      (D'.searchScript interrupt' (D'.candidates interrupt' as) bs) := by
  rw [searchScript_candidates, searchScript_candidates, h.tieBreak_eq]
  exact (h.searchRule hcompare).search

/-- All matches are related. -/
theorem match? (a b : Tree ℓ) :
    (S.comap (Reporting τ₁ m₁) (Reporting τ₂ m₂)).Rel (fun _ => True) (D.match? interrupt a b)
      (D'.match? interrupt' a b) := by
  induction a using Tree.induct generalizing b with
  | step l cs ih =>
    rw [match?_node, match?_node, ← candidates_eq_map, ← candidates_eq_map]
    exact h.node (h.searchScript_of_match? fun a ha b _ => ih a ha b)

/-- All searches are related. -/
theorem searchScript (as bs : List (Tree ℓ)) :
    S.Rel (fun _ => True) (D.searchScript interrupt (D.candidates interrupt as) bs)
      (D'.searchScript interrupt' (D'.candidates interrupt' as) bs) :=
  h.searchScript_of_match? fun a _ b _ => h.match? a b

end Related

end TreeDiff.Differ
