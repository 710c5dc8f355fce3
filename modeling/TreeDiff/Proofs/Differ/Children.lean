import TreeDiff.Proofs.Differ.Deadline

/-!
# The diff of two trees and the script of their children

If the roots of two trees have the same label, the diff of the trees is the root over the script of
their children, and a call on the trees does just what the call on their children does. This is so
without a limit of time and within one, although a search of children that runs out of time is
reported in two ways: by the search itself in the one call, by the report that it leaves in the
other.

* `Differ.match?_of_label`: the match of two trees, from the search of their children.
* `Differ.diffTrees_eq_map`, `Differ.diffTreesWithin_eq_map`: the calls on trees with the same
  label.
* `Differ.compare_of_label_ne`, `Differ.diffTreesWithin_of_label_ne`: the calls on other trees,
  which search nothing.
* `Differ.run_eq_run_children`: all runs of these calls.
-/

namespace TreeDiff.Differ

section

variable {m : Type → Type} [Monad m] [LawfulMonad m] [MonadLiftT (Except Fault) m] {ℓ τ : Type}
  {D : Differ m ℓ} {a b : Tree ℓ}

/-! ## Roots with the same label -/

/-- The match of two trees is settled by the search of their children. -/
theorem match?_of_label (interrupt : Interrupt m τ) (h : D.sameLabel a.label b.label = true) :
    (D.match? interrupt a b).run none = (do
      let (x, r) ← (D.searchScript interrupt (D.candidates interrupt a.children)
        b.children).run.run none
      return settled a.label x r) := by
  obtain ⟨l, cs⟩ := a
  rw [match?_node, ← candidates_eq_map]
  exact D.run_matchNode_none interrupt _ h

theorem diffTrees_eq_map (h : D.sameLabel a.label b.label = true) :
    D.diffTrees a b = .merge a.label <$> D.diffSequences a.children b.children := by
  unfold diffTrees compare diffSequences uninterrupted
  rw [StateT.run'_eq, match?_of_label .never h, StateT.run'_eq, StateT.run_bind]
  simp only [map_bind, map_pure, bind_assoc, bind_map_left]
  refine bind_congr fun p => ?_
  obtain ⟨e | script, r⟩ := p
  · exact e.elim
  · simp [settled]

theorem diffTreesWithin_eq_map {clock : m Instant} (h : D.sameLabel a.label b.label = true) :
    D.diffTreesWithin clock a b =
      .merge a.label <$> D.diffSequencesWithin clock a.children b.children := by
  unfold diffTreesWithin diffSequencesWithin
  rw [map_bind]
  refine bind_congr fun limit => ?_
  rw [match?_of_label _ h, liftM_bind, bind_assoc, map_bind]
  refine bind_congr fun (x, r) => ?_
  -- the search of the children reports the end of its time where the match only leaves a report
  cases x with
  | error t => simp [settled]
  | ok script => cases r <;> simp [settled]

/-! ## Roots with other labels -/

/-- Trees with other labels are not searched. -/
theorem match?_of_label_ne (interrupt : Interrupt m τ) (h : D.sameLabel a.label b.label = false)
    (r : Option τ) : (D.match? interrupt a b).run r = pure (none, r) := by
  obtain ⟨l, cs⟩ := a
  rw [match?_node]
  exact D.run_matchNode_of_ne interrupt _ h r

theorem compare_of_label_ne (h : D.sameLabel a.label b.label = false) :
    D.compare a b = pure none := by
  rw [compare, StateT.run'_eq, match?_of_label_ne .never h, map_pure]

theorem diffTrees_of_label_ne (h : D.sameLabel a.label b.label = false) :
    D.diffTrees a b = pure (.edit (.replace a b)) := by
  rw [diffTrees, compare_of_label_ne h, pure_bind, Option.getD_none]

/-- Only the limit of time is looked up. -/
theorem diffTreesWithin_of_label_ne {clock : m Instant} (h : D.sameLabel a.label b.label = false) :
    D.diffTreesWithin clock a b =
      (fun _ => .edit (.replace a b)) <$> D.settings.limit (liftM clock) := by
  unfold diffTreesWithin
  rw [map_eq_pure_bind]
  refine bind_congr fun limit => ?_
  rw [match?_of_label_ne _ h, liftM_pure, pure_bind]
  rfl

end

/-! ## Runs -/

variable {σ ℓ : Type}

/-- **The call on two trees and the call on their children agree, in success and in failure.** If
the roots have the same label, they return the same script, report the same end of their time, or
meet the same fault, in the same state. Otherwise nothing is searched: the one tree replaces the
other one, unless the limit of time is beyond what can be computed. -/
theorem run_eq_run_children (D : Differ (Attempt σ) ℓ) (clock : Attempt σ Instant) (a b : Tree ℓ)
    (s : σ) :
    (D.sameLabel a.label b.label = true →
      (D.diffTrees a b s = match D.diffSequences a.children b.children s with
        | .ok ds s' => .ok (.merge a.label ds) s'
        | .error e s' => .error e s') ∧
      (D.diffTreesWithin clock a b).run s =
        match (D.diffSequencesWithin clock a.children b.children).run s with
        | .ok (.ok ds) s' => .ok (.ok (.merge a.label ds)) s'
        | .ok (.error t) s' => .ok (.error t) s'
        | .error e s' => .error e s') ∧
    (D.sameLabel a.label b.label = false →
      D.compare a b s = .ok none s ∧ D.diffTrees a b s = .ok (.edit (.replace a b)) s ∧
      (D.diffTreesWithin clock a b).run s = match D.settings.limit clock s with
        | .ok _ s' => .ok (.ok (.edit (.replace a b))) s'
        | .error e s' => .error e s') := by
  refine ⟨fun h => ⟨?_, ?_⟩, fun h => ⟨?_, ?_, ?_⟩⟩
  · rw [diffTrees_eq_map h]
    simp only [Functor.map, EStateM.map]
    cases D.diffSequences a.children b.children s <;> rfl
  · rw [diffTreesWithin_eq_map h, map_eq_pure_bind, Attempt.run_bind]
    cases (D.diffSequencesWithin clock a.children b.children).run s with
    | ok p s' => cases p <;> rfl
    | error e s' => rfl
  · rw [compare_of_label_ne h]
    rfl
  · rw [diffTrees_of_label_ne h]
    rfl
  · rw [diffTreesWithin_of_label_ne h, map_eq_pure_bind, Settings.limit_liftM,
      Attempt.run_liftM_bind]
    cases D.settings.limit clock s <;> rfl

theorem run_eq_run_children_hasty :
    ((hasty.diffSequencesWithin get [.leaf "slow"] [.leaf "leaf"]).run ⟨0⟩ =
        .ok (.error ⟨3, 4⟩) ⟨2000⟩ ∧
      (hasty.diffTreesWithin get (.node "root" [.leaf "slow"]) (.node "root" [.leaf "leaf"])).run
        ⟨0⟩ = .ok (.error ⟨3, 4⟩) ⟨2000⟩) ∧
      hasty.diffTrees (.leaf "slow") (.leaf "leaf") ⟨0⟩ =
        .ok (.edit (.replace (.leaf "slow") (.leaf "leaf"))) ⟨0⟩ ∧
      (hasty.diffTreesWithin get (.leaf "slow") (.leaf "leaf")).run ⟨0⟩ =
        .ok (.ok (.edit (.replace (.leaf "slow") (.leaf "leaf")))) ⟨0⟩ := by
  have hchildren : (hasty.diffSequencesWithin get [.leaf "slow"] [.leaf "leaf"]).run ⟨0⟩ =
      .ok (.error ⟨3, 4⟩) ⟨2000⟩ := rfl
  have hsame := (run_eq_run_children hasty get (.node "root" [.leaf "slow"])
    (.node "root" [.leaf "leaf"]) ⟨0⟩).1 rfl
  have hother := (run_eq_run_children hasty get (.leaf "slow") (.leaf "leaf") ⟨0⟩).2 rfl
  refine ⟨⟨hchildren, ?_⟩, hother.2.1, hother.2.2⟩
  rw [hsame.2, Tree.children_node, Tree.children_node, hchildren]

end TreeDiff.Differ
