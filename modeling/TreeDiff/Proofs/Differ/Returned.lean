import TreeDiff.Proofs.Differ.Runs
import TreeDiff.Proofs.Grid.Paths

/-!
# What calls return

Whatever is compared and charged, a match that is returned is a node over a script of its children,
and this script follows a path whose matches are of the same kind. What passes from such a script to
the node thus holds of every match, by an induction on the first tree. What a call returns is a
match or the script of a search.

* `Differ.returning`: what holds of every answer that is returned, whatever the report.
* `Differ.returning_match?`: what a matched node inherits holds of every match.
* `Differ.returning_searchScript`: the path that a search follows.
* `Differ.exists_match?_of_diffTrees`, `Differ.exists_search_of_diffSequences` and the same for
  calls within a limit of time: the match and the search behind a call that returns.
-/

namespace TreeDiff.Differ

variable {σ ℓ τ : Type}

/-- The simulation that says something of every answer that is returned, whatever the report. -/
abbrev returning (τ σ : Type) : Simulation (Reporting τ (Attempt σ)) (Reporting τ (Attempt σ)) :=
  (Attempt.returning σ).stateT (Option τ)

/-- The script loses and gains whole trees of two lists, and its matches have the property `Q`. -/
abbrev Follows (Q : Tree ℓ → Tree ℓ → Diff ℓ → Prop) (as bs : List (Tree ℓ))
    (s : Script (Diff ℓ)) : Prop :=
  s.Follows (fun a => .edit (.delete a)) (fun b => .edit (.insert b))
    (fun a b d => a ∈ as ∧ b ∈ bs ∧ Q a b d) as bs

/-! ## Searches inside searches -/

section

variable (D : Differ (Attempt σ) ℓ) (interrupt : Interrupt (Attempt σ) τ)
  {Q : Tree ℓ → Tree ℓ → Diff ℓ → Prop}

/-- A search follows a path with the matches that its comparisons return. -/
theorem returning_searchScript_of_match? (as bs : List (Tree ℓ))
    (hcompare : ∀ a ∈ as, ∀ b ∈ bs, (returning τ σ).Rel (fun o => ∀ d, o = some d → Q a b d)
      (D.match? interrupt a b) (D.match? interrupt a b)) :
    ((returning τ σ).exceptT τ).Rel (Follows Q as bs)
      (D.searchScript interrupt (D.candidates interrupt as) bs)
      (D.searchScript interrupt (D.candidates interrupt as) bs) := by
  have hrelated : Policy.Related ((returning τ σ).exceptT τ) (D.treePolicy interrupt)
      (D.treePolicy interrupt) (asking interrupt) (asking interrupt)
      (fun a b d => a ∈ as ∧ b ∈ bs ∧ Q a b d) as bs := by
    refine .of_steps rfl rfl rfl (fun _ _ _ _ _ _ _ => trivial) (fun a ha b hb => ?_)
      (fun _ _ _ _ _ _ => trivial) fun Q => (Attempt.returning σ).stateT_liftM
        (Attempt.returning_throw Q _)
    exact (returning τ σ).mono (hcompare a ha b hb) fun o ho d hd => ⟨ha, hb, ho d hd⟩
  rw [searchScript_candidates]
  exact hrelated.search D.settings.tieBreak

variable (hnode : ∀ {l as b s}, D.sameLabel l b.label = true → Follows Q as b.children s →
  Q (.node l as) b (.merge l s.edits))
include hnode

/-- **What passes from the matches of children to the node holds of every match.** -/
theorem returning_match? (a b : Tree ℓ) :
    (returning τ σ).Rel (fun o => ∀ d, o = some d → Q a b d) (D.match? interrupt a b)
      (D.match? interrupt a b) := by
  induction a using Tree.induct generalizing b with
  | step l cs ih =>
    have hsearch := D.returning_searchScript_of_match? interrupt cs b.children
      fun a ha b _ => ih a ha b
    rw [match?_node, ← candidates_eq_map]
    have hmatch := stateT_matchNode (Attempt.returning σ) (l := l) (b := b) rfl hsearch
    refine (returning τ σ).mono hmatch fun o ho d hd => ?_
    obtain ⟨hl, script, hfollows, rfl⟩ := ho d hd
    exact hnode hl hfollows

/-- Every search follows a path with such matches. -/
theorem returning_searchScript (as bs : List (Tree ℓ)) :
    ((returning τ σ).exceptT τ).Rel (Follows Q as bs)
      (D.searchScript interrupt (D.candidates interrupt as) bs)
      (D.searchScript interrupt (D.candidates interrupt as) bs) :=
  D.returning_searchScript_of_match? interrupt as bs
    fun a _ b _ => D.returning_match? interrupt hnode a b

end

/-! ## Calls -/

variable {D : Differ (Attempt σ) ℓ} {clock : Attempt σ Instant} {a b : Tree ℓ}
  {as bs : List (Tree ℓ)} {s s' : σ} {d : Diff ℓ} {ds : List (Diff ℓ)}

theorem exists_match?_of_diffTrees (h : D.diffTrees a b s = .ok d s') :
    ∃ o, (D.match? .never a b).run none s = .ok (o, none) s' ∧
      d = o.getD (.edit (.replace a b)) := by
  obtain ⟨o, s₁, hcompare, hd⟩ := Attempt.bind_eq_ok_iff.1 h
  obtain ⟨⟨o', r⟩, s₂, hmatch, ho⟩ := Attempt.bind_eq_ok_iff.1 hcompare
  cases ho
  cases hd
  cases r with
  | none => exact ⟨o', hmatch, rfl⟩
  | some e => exact e.elim

theorem exists_match?_of_diffTreesWithin
    (h : (D.diffTreesWithin clock a b).run s = .ok (.ok d) s') :
    ∃ limit s₁ o, (D.match? (.deadline clock limit) a b).run none s₁ = .ok (o, none) s' ∧
      d = o.getD (.edit (.replace a b)) := by
  obtain ⟨limit, s₁, -, h⟩ := Attempt.run_bind_eq_ok h
  obtain ⟨⟨o, report⟩, s₂, hmatch, hd⟩ := Attempt.run_bind_eq_ok h
  rw [Attempt.run_liftM_eq_ok_iff] at hmatch
  cases report with
  | some t => cases hd
  | none =>
    cases hd
    exact ⟨limit, s₁, o, hmatch, rfl⟩

theorem exists_search_of_diffSequences (h : D.diffSequences as bs s = .ok ds s') :
    ∃ script, (D.searchScript .never (D.candidates .never as) bs).run.run none s =
      .ok (.ok script, none) s' ∧ ds = script.edits := by
  obtain ⟨script, s₁, hscript, hds⟩ := Attempt.bind_eq_ok_iff.1 h
  obtain ⟨p, s₂, hrun, hp⟩ := Attempt.bind_eq_ok_iff.1 hscript
  cases hp
  cases hds
  obtain ⟨⟨q, r⟩, s₃, hsearch, hq⟩ := (Attempt.bind_eq_ok_iff (x := StateT.run _ none)).1 hrun
  cases q with
  | error e => exact e.elim
  | ok script =>
    cases hq
    cases r with
    | none => exact ⟨script, hsearch, rfl⟩
    | some e => exact e.elim

theorem exists_search_of_diffSequencesWithin
    (h : (D.diffSequencesWithin clock as bs).run s = .ok (.ok ds) s') :
    ∃ limit s₁ script, (D.searchScript (.deadline clock limit)
        (D.candidates (.deadline clock limit) as) bs).run.run none s₁ = .ok (.ok script, none) s' ∧
      ds = script.edits := by
  obtain ⟨limit, s₁, -, h⟩ := Attempt.run_bind_eq_ok h
  obtain ⟨⟨p, report⟩, s₂, hsearch, hds⟩ := Attempt.run_bind_eq_ok h
  rw [Attempt.run_liftM_eq_ok_iff] at hsearch
  cases p with
  | error t => cases hds
  | ok script =>
    cases report with
    | some t => cases hds
    | none =>
      cases hds
      exact ⟨limit, s₁, script, hsearch, rfl⟩

end TreeDiff.Differ
