import Mathlib.Data.List.Chain
import TreeDiff.Proofs.Grid.Complete
import TreeDiff.Proofs.Grid.Moves

/-!
# Deletions before insertions

In a script that a search returns, no insertion is followed at once by a deletion. Nothing in the
search says so: it is the totals of four neighbouring positions that exclude it. If the script
gained an element and then lost one, at the same price it could have lost the one and then gained
the other, and of an insertion and a deletion of the same total cost the deletion is taken.

* `Step.DeletesFirst`: no insertion is followed at once by a deletion. Between two matches all
  deletions then come before all insertions (`Step.DeletesFirst.filter_append_filter`).
* `Pattern.deletesFirst`: what is needed of neighbouring positions, and
  `Pattern.Square.deletesFirst_pick` how it is continued by the script that is picked.
* `Policy.deletesFirst_search`: the moves of the search, with any interrupt and any callbacks.
* `Policy.Orderly`: what the order of the moves says of a whole run. Without a successful comparison
  everything is deleted before everything is inserted.
* `cheapest_orderly`: all calls of the search.
-/

namespace TreeDiff

variable {σ α β δ τ : Type}

/-! ## Steps without an insertion before a deletion -/

namespace Step

/-- No insertion is followed at once by a deletion. -/
def DeletesFirst (steps : List (Step δ)) : Prop :=
  steps.IsChain fun step next => step.move = .insert → next.move ≠ .delete

variable {step : Step δ} {steps : List (Step δ)}

theorem DeletesFirst.cons (h : DeletesFirst steps)
    (hhead : step.move = .insert → ∀ next ∈ steps.head?, next.move ≠ .delete) :
    DeletesFirst (step :: steps) :=
  List.isChain_cons.2 ⟨fun next hnext hstep => hhead hstep next hnext, h⟩

theorem DeletesFirst.of_infix {steps' : List (Step δ)} (h : DeletesFirst steps)
    (hsub : steps' <:+: steps) : DeletesFirst steps' :=
  List.IsChain.infix h hsub

/-- Without a match, an insertion is followed by insertions only. -/
theorem DeletesFirst.move_eq_insert (h : DeletesFirst (step :: steps)) (hstep : step.move = .insert)
    (hboth : ∀ next ∈ steps, next.move ≠ .both) : ∀ next ∈ steps, next.move = .insert := by
  induction steps generalizing step with
  | nil => exact nofun
  | cons step' steps ih =>
    obtain ⟨hhead, hsteps⟩ := List.isChain_cons_cons.1 h
    have hstep' : step'.move = .insert := by
      cases hmove : step'.move with
      | insert => rfl
      | delete => exact absurd hmove (hhead hstep)
      | both => exact absurd hmove (hboth step' List.mem_cons_self)
    intro next hnext
    rcases List.mem_cons.1 hnext with rfl | hnext
    · exact hstep'
    · exact ih hsteps hstep' (fun next hnext => hboth next (List.mem_cons_of_mem _ hnext)) next
        hnext

/-- Without a match, all deletions come before all insertions. -/
theorem DeletesFirst.filter_append_filter (h : DeletesFirst steps)
    (hboth : ∀ step ∈ steps, step.move ≠ .both) :
    steps.filter (·.move = .delete) ++ steps.filter (·.move = .insert) = steps := by
  induction steps with
  | nil => rfl
  | cons step steps ih =>
    have hsteps : ∀ next ∈ steps, next.move ≠ .both :=
      fun next hnext => hboth next (List.mem_cons_of_mem _ hnext)
    cases hmove : step.move with
    | delete =>
      have hrest := ih (List.isChain_cons.1 h).2 hsteps
      simp [hmove, hrest]
    | insert =>
      have hinsert := h.move_eq_insert hmove hsteps
      have hnone : steps.filter (·.move = .delete) = [] := by
        simpa using fun next hnext => by simp [hinsert next hnext]
      have hall : steps.filter (·.move = .insert) = steps := by
        simpa using hinsert
      simp [hmove, hnone, hall]
    | both => exact absurd hmove (hboth step List.mem_cons_self)

end Step

/-- The script begins with a deletion. -/
def Script.Deletes (s : Script (Step δ)) : Prop := ∃ step ∈ s.edits.head?, step.move = .delete

theorem Script.not_deletes_empty : ¬ (empty : Script (Step δ)).Deletes := by
  rintro ⟨step, hstep, -⟩
  cases hstep

theorem Script.deletes_cons {step : Step δ} {c : Nat} {s : Script (Step δ)} :
    (s.cons step c).Deletes ↔ step.move = .delete := by
  simp [Deletes]

theorem Script.deletesFirst_cons {step : Step δ} {c : Nat} {s : Script (Step δ)}
    (hs : Step.DeletesFirst s.edits) (hstep : step.move = .insert → ¬ s.Deletes) :
    Step.DeletesFirst (s.cons step c).edits :=
  hs.cons fun hinsert next hnext hdelete => hstep hinsert ⟨next, hnext, hdelete⟩

/-! ## The exchange of an insertion and a deletion -/

namespace Pattern

/-- The scripts of the positions, and the totals of neighbours. The script of a position costs at
most what it costs to gain the next element first, and just what it costs to lose the next element
first if it begins with a deletion. -/
def deletesFirst : Pattern α β (Step δ) where
  here xs _ s := Step.DeletesFirst s.edits ∧ (xs = [] → ¬ s.Deletes)
  beside _ y _ s t := s.total ≤ y.price + t.total
  above x _ _ s t := s.Deletes → s.total = x.price + t.total

variable {x : Priced α (Step δ)} {xs : List (Priced α (Step δ))} {y : Priced β (Step δ)}
  {ys : List (Priced β (Step δ))} {lost gained both : Script (Step δ)}

/-- The script that is picked continues the pattern. It does not gain `y` before a deletion: to lose
`x` first would then be as cheap. -/
theorem Square.deletesFirst_pick (h : deletesFirst.Square x xs y ys lost gained both)
    (hx : x.edit.move = .delete) (hy : y.edit.move = .insert) (tie : TieBreak)
    {viaMatch : Option (Script (Step δ))}
    (hboth : ∀ s, viaMatch = some s → ∃ step c, step.move = .both ∧ both.cons step c = s) :
    deletesFirst.Continues x xs y ys lost gained
      (tie.pick (lost.cons x.edit x.price) (gained.cons y.edit y.price) viaMatch) := by
  have htotal := tie.total_pick_le_insert (lost.cons x.edit x.price) (gained.cons y.edit y.price)
    viaMatch
  rcases tie.pick_cases (lost.cons x.edit x.price) (gained.cons y.edit y.price) viaMatch with
    hpick | ⟨hpick, hlt⟩ | hpick
  · rw [hpick] at htotal ⊢
    exact ⟨⟨Script.deletesFirst_cons h.here_lost.1 (by simp [hx]), nofun⟩, htotal, fun _ => rfl⟩
  · rw [hpick] at htotal ⊢
    have hhere : Step.DeletesFirst (gained.cons y.edit y.price).edits := by
      refine Script.deletesFirst_cons h.here_gained.1 fun _ hdeletes => ?_
      -- the deletion that would follow could as well come first
      have hgained : gained.total = x.price + both.total := h.above hdeletes
      have hlost : lost.total ≤ y.price + both.total := h.beside
      rw [Script.total_cons, Script.total_cons] at hlt
      omega
    refine ⟨⟨hhere, nofun⟩, htotal, fun hdeletes => ?_⟩
    rw [Script.deletes_cons, hy] at hdeletes
    cases hdeletes
  · obtain ⟨step, c, hstep, hs⟩ := hboth _ hpick
    rw [← hs] at htotal ⊢
    have hhere : Step.DeletesFirst (both.cons step c).edits :=
      Script.deletesFirst_cons h.here_both.1 (by simp [hstep])
    refine ⟨⟨hhere, nofun⟩, htotal, fun hdeletes => ?_⟩
    rw [Script.deletes_cons, hstep] at hdeletes
    cases hdeletes

end Pattern

/-! ## The search -/

namespace Policy

variable (P : Policy (Attempt σ) α β δ) (tie : TieBreak) (interrupt : Interrupt (Attempt σ) τ)

variable {P} in
/-- What a comparison returns is a match. -/
theorem move_of_compare_stepping {x : α} {y : β} {s s' : σ} {step : Step δ}
    (h : P.stepping.compare x y s = .ok (some step) s') : step.move = .both := by
  obtain ⟨o, s₁, -, ho⟩ := Attempt.bind_eq_ok_iff.1 h
  cases o with
  | none => cases ho
  | some d =>
    cases ho
    rfl

variable {P tie} in
/-- A position that gets a script continues the pattern, whatever the comparison and the price
answer. -/
theorem deletesFirst_of_cell {x : Priced α (Step δ)} {xs : List (Priced α (Step δ))}
    {y : Priced β (Step δ)} {ys : List (Priced β (Step δ))}
    {lost gained both script : Script (Step δ)} {s s' : σ}
    (h : P.stepping.cell tie x y lost gained both s = .ok script s')
    (hsquare : Pattern.deletesFirst.Square x xs y ys lost gained both)
    (hx : x.edit.move = .delete) (hy : y.edit.move = .insert) :
    Pattern.deletesFirst.Continues x xs y ys lost gained script := by
  obtain ⟨viaDelete, viaInsert, hdelete, hinsert, hpick⟩ := cell_cases h
  obtain ⟨-, rfl⟩ := Script.prepend_eq_ok_iff.1 hdelete
  obtain ⟨-, rfl⟩ := Script.prepend_eq_ok_iff.1 hinsert
  rcases hpick with ⟨-, rfl⟩ | ⟨step, c, s₁, viaMatch, hcompare, -, hmatch, rfl⟩
  · exact hsquare.deletesFirst_pick hx hy tie nofun
  · obtain ⟨-, rfl⟩ := Script.prepend_eq_ok_iff.1 hmatch
    refine hsquare.deletesFirst_pick hx hy tie ?_
    rintro _ ⟨⟩
    exact ⟨step, c, move_of_compare_stepping hcompare, rfl⟩

theorem rowRule_deletesFirst {ps : List (Priced α (Step δ))} {qs : List (Priced β (Step δ))}
    (hps : ∀ p ∈ ps, p.edit.move = .delete) (hqs : ∀ q ∈ qs, q.edit.move = .insert) :
    RowRule (((Attempt.returning σ).exceptT τ).tracking Unit) P.stepping P.stepping tie interrupt
      interrupt ps qs .deletesFirst (fun _ _ _ => True) where
  done := ⟨List.IsChain.nil, fun _ => Script.not_deletes_empty⟩
  delete := by
    intro x xs s hx hs
    refine Attempt.rel_except _ (Attempt.returning_throw _) fun t ht => ?_
    obtain ⟨-, rfl⟩ := Script.prepend_eq_ok_iff.1 ht
    have hmove := hps x (hx.subset List.mem_cons_self)
    exact ⟨⟨Script.deletesFirst_cons hs.1 (by simp [hmove]), nofun⟩, fun _ => rfl⟩
  insert := by
    intro y ys s hy hs
    refine Attempt.rel_except _ (Attempt.returning_throw _) fun t ht => ?_
    obtain ⟨-, rfl⟩ := Script.prepend_eq_ok_iff.1 ht
    have hmove := hqs y (hy.subset List.mem_cons_self)
    refine ⟨⟨Script.deletesFirst_cons hs.1 fun _ => hs.2 rfl, fun _ => ?_⟩, Nat.le_refl _⟩
    rw [Script.deletes_cons, hmove]
    exact nofun
  position := by
    intro x xs y ys lost gained both hx hy hsquare solved total _ _
    have hcheck : (((Attempt.returning σ).exceptT τ).tracking Unit).Rel (fun _ => True)
        (fun _ => True) (fun _ => True) (interrupt.check solved total)
        (interrupt.check solved total) := fun _ _ _ _ _ _ => trivial
    refine Tracking.bind _ hcheck fun _ _ => ?_
    exact Attempt.returning_liftM fun s script s' hcell =>
      deletesFirst_of_cell hcell hsquare (hps x (hx.subset List.mem_cons_self))
        (hqs y (hy.subset List.mem_cons_self))

/-- What a search returns with its moves has no insertion before a deletion. -/
theorem deletesFirst_search {xs : List α} {ys : List β} {s s' : σ} {script : Script (Step δ)}
    (h : (search P.stepping tie interrupt xs ys).run s = .ok (.ok script) s') :
    Step.DeletesFirst script.edits := by
  have hsearch : (((Attempt.returning σ).exceptT τ).tracking Unit).Rel (fun _ => True)
      (fun script => Step.DeletesFirst script.edits) (fun _ => True)
      (search P.stepping tie interrupt xs ys) (search P.stepping tie interrupt xs ys) := by
    refine Tracking.search (K := fun _ _ => True) (A := fun _ _ _ => True) rfl rfl
      (fun _ _ _ _ _ _ _ _ _ => trivial) (fun _ _ _ _ _ _ _ _ _ => trivial)
      fun ps qs _ hps _ hqs => ?_
    have hdelete : ∀ p ∈ ps, p.edit.move = .delete := by
      intro p hp
      obtain ⟨x, c, -, rfl⟩ := hps p hp
      rfl
    have hinsert : ∀ q ∈ qs, q.edit.move = .insert := by
      intro q hq
      obtain ⟨y, c, -, rfl⟩ := hqs q hq
      rfl
    exact Tracking.mono _ (P.rowRule_deletesFirst tie interrupt hdelete hinsert).topRow
      fun row hrow => hrow.first.1
  exact hsearch s _ s' h script rfl

end Policy

/-! ## Paths with their moves -/

namespace Path

variable {delete : α → δ} {insert : β → δ} {xs : List α} {ys : List β}

/-- A path of edits that stand with their moves is a path of these moves. -/
theorem map_edit {matched : α → β → Step δ → Prop} {steps : List (Step (Step δ))}
    (hmatched : ∀ x y step, matched x y step → step.move = .both)
    (h : Path (fun x => ⟨.delete, delete x⟩) (fun y => ⟨.insert, insert y⟩) matched xs ys steps) :
    Path delete insert (fun x y d => matched x y ⟨.both, d⟩) xs ys (steps.map Step.edit) := by
  induction h with
  | done => exact .done
  | delete x _ ih => exact .delete x ih
  | insert y _ ih => exact .insert y ih
  | @both xs ys steps x y step hstep _ ih =>
    have hmove := hmatched x y step hstep
    obtain ⟨move, d⟩ := step
    cases hmove
    exact .both hstep ih

variable {matched : α → β → δ → Prop} {steps : List (Step δ)}
  (hnone : ∀ x y d, ¬ matched x y d)
include hnone

theorem move_ne_both (h : Path delete insert matched xs ys steps) :
    ∀ step ∈ steps, step.move ≠ .both := by
  induction h with
  | done => exact nofun
  | delete x _ ih => simpa using ih
  | insert y _ ih => simpa using ih
  | both hd => exact absurd hd (hnone _ _ _)

/-- Without matches, all elements of the first sequence are deleted and all of the second one are
inserted, each in their order. -/
theorem map_filter (h : Path delete insert matched xs ys steps) :
    (steps.filter (·.move = .delete)).map Step.edit = xs.map delete ∧
      (steps.filter (·.move = .insert)).map Step.edit = ys.map insert := by
  induction h with
  | done => exact ⟨rfl, rfl⟩
  | delete x _ ih => simpa using ih
  | insert y _ ih => simpa using ih
  | both hd => exact absurd hd (hnone _ _ _)

end Path

/-! ## Calls -/

/-- The steps of a run, of which the answers of the comparisons are known, delete before they
insert. -/
structure Policy.Orderly (P : Policy (Attempt σ) α β δ) (answers : Answers α β (Step δ))
    (xs : List α) (ys : List β) (steps : List (Step δ)) : Prop where
  /-- The steps are a path, with answers of the comparisons as its matches. -/
  path : TreeDiff.Path P.recorded.delete P.recorded.insert
    (fun x y d => ⟨x, y, some ⟨.both, d⟩⟩ ∈ answers) xs.zipIdx ys.zipIdx steps
  /-- No insertion is followed at once by a deletion. -/
  deletesFirst : Step.DeletesFirst steps
  /-- Between two matches all deletions come before all insertions. -/
  stretch : ∀ stretch, stretch <:+: steps → (∀ step ∈ stretch, step.move ≠ .both) →
    stretch.filter (·.move = .delete) ++ stretch.filter (·.move = .insert) = stretch
  /-- If no comparison has succeeded, then everything is deleted before everything is inserted. -/
  unmatched : (∀ c ∈ answers, c.answer = none) →
    steps.map Step.edit = xs.map P.delete ++ ys.map P.insert

theorem Policy.Orderly.of_deletesFirst {P : Policy (Attempt σ) α β δ}
    {answers : Answers α β (Step δ)} {xs : List α} {ys : List β} {steps : List (Step δ)}
    (hpath : TreeDiff.Path P.recorded.delete P.recorded.insert
      (fun x y d => ⟨x, y, some ⟨.both, d⟩⟩ ∈ answers) xs.zipIdx ys.zipIdx steps)
    (h : Step.DeletesFirst steps) : P.Orderly answers xs ys steps where
  path := hpath
  deletesFirst := h
  stretch stretch hsub hboth := (h.of_infix hsub).filter_append_filter hboth
  unmatched hanswers := by
    -- the whole path is a stretch without a match
    have hnone : ∀ x y d, ¬ (⟨x, y, some ⟨.both, d⟩⟩ : Comparison (α × Nat) (β × Nat) (Step δ)) ∈
        answers := fun x y d hd => nomatch hanswers _ hd
    have hedits := hpath.map_filter hnone
    rw [← h.filter_append_filter (hpath.move_ne_both hnone), List.map_append, hedits.1, hedits.2]
    exact congrArg₂ (· ++ ·) (map_zipIdx_eq P.delete xs) (map_zipIdx_eq P.insert ys)

/-- **A script that is returned deletes before it inserts**, as a run with a log of its answers that
writes down its moves shows. -/
theorem search_orderly (P : Policy (Attempt σ) α β δ) (tie : TieBreak)
    (interrupt : Interrupt (Attempt σ) τ) {xs : List α} {ys : List β} {s s' : σ} {script : Script δ}
    (h : (search P tie interrupt xs ys).run s = .ok (.ok script) s') :
    ∃ script' answers, (search P.stepping.recorded tie interrupt.onFst xs.zipIdx ys.zipIdx).run
      (s, #[]) = .ok (.ok script') (s', answers) ∧ script'.map Step.edit = script ∧
        P.Orderly answers xs ys script'.edits := by
  rw [search_stepping, map_eq_pure_bind] at h
  obtain ⟨script', s₁, hrun, hscript⟩ := Attempt.run_bind_eq_ok h
  cases hscript
  obtain ⟨answers, hanswers, hpath⟩ := search_isEditPath P.stepping tie interrupt hrun
  refine ⟨script', answers, hanswers, rfl, .of_deletesFirst ?_ (P.deletesFirst_search tie interrupt
    hrun)⟩
  obtain ⟨steps, hsteps, hedits, -⟩ := hpath.path
  rw [← hedits]
  refine hsteps.map_edit fun x y step hstep => ?_
  obtain ⟨s₁, s₂, hcompare⟩ := hpath.returned _ hstep
  exact Policy.move_of_compare_stepping hcompare

/-- **Every call of the search deletes before it inserts**, whatever the callbacks answer and
however their answers change from call to call. -/
theorem cheapest_orderly (P : Policy (Attempt σ) α β δ) (clock : Attempt σ Instant)
    (settings : Settings) (xs : List α) (ys : List β) (s s' : σ) :
    (∀ script, cheapestScript P settings xs ys s = .ok script s' →
      ∃ script' answers, cheapestScript P.stepping.recorded settings xs.zipIdx ys.zipIdx (s, #[]) =
        .ok script' (s', answers) ∧ script'.map Step.edit = script ∧
          P.Orderly answers xs ys script'.edits) ∧
    (∀ edits, cheapestEdits P settings xs ys s = .ok edits s' →
      ∃ steps answers, cheapestEdits P.stepping.recorded settings xs.zipIdx ys.zipIdx (s, #[]) =
        .ok steps (s', answers) ∧ steps.map Step.edit = edits ∧ P.Orderly answers xs ys steps) ∧
    ∀ edits, (cheapestEditsWithin clock P settings xs ys).run s = .ok (.ok edits) s' →
      ∃ steps answers, (cheapestEditsWithin clock.onFst P.stepping.recorded settings xs.zipIdx
        ys.zipIdx).run (s, #[]) = .ok (.ok steps) (s', answers) ∧ steps.map Step.edit = edits ∧
          P.Orderly answers xs ys steps := by
  refine ⟨?_, ?_, ?_⟩
  · intro script h
    obtain ⟨script', answers, hrun, hmoves, horderly⟩ :=
      search_orderly P settings.tieBreak .never (uninterrupted_eq_ok_iff.1 h)
    exact ⟨script', answers, uninterrupted_eq_ok_iff.2 hrun, hmoves, horderly⟩
  · intro edits h
    obtain ⟨script, hsearch, rfl⟩ := cheapestEdits_eq_ok_iff.1 h
    obtain ⟨script', answers, hrun, rfl, horderly⟩ :=
      search_orderly P settings.tieBreak .never hsearch
    exact ⟨_, answers, cheapestEdits_eq_ok_iff.2 ⟨script', hrun, rfl⟩, (Script.edits_map _ _).symm,
      horderly⟩
  · intro edits h
    have hsearch : ∀ limit s₁ script,
        (search P settings.tieBreak (.deadline clock limit) xs ys).run s₁ = .ok (.ok script) s' →
        ∃ script' answers, (search P.stepping.recorded settings.tieBreak
          (.deadline clock.onFst limit) xs.zipIdx ys.zipIdx).run (s₁, #[]) =
            .ok (.ok script') (s', answers) ∧ script'.map Step.edit = script ∧
              P.Orderly answers xs ys script'.edits := by
      intro limit s₁ script hrun
      rw [← Interrupt.onFst_deadline]
      exact search_orderly P settings.tieBreak _ hrun
    obtain ⟨_, script', answers, rfl, hrun, rfl, horderly⟩ :=
      exists_cheapestEditsWithin_onFst hsearch h
    exact ⟨_, answers, hrun, (Script.edits_map _ _).symm, horderly⟩

theorem cheapest_orderly_fickle :
    (∃ script' answers, cheapestScript Policy.fickle.stepping.recorded { deadline := some ⟨20⟩ }
        [1, 2].zipIdx [3].zipIdx (0, #[]) = .ok script' (6, answers) ∧
        script'.map Step.edit = ⟨[((some 1, some 3), 2), ((some 2, none), 1)]⟩ ∧
        Policy.fickle.Orderly answers [1, 2] [3] script'.edits) ∧
      (∃ steps answers, cheapestEdits Policy.fickle.stepping.recorded { deadline := some ⟨20⟩ }
        [1, 2].zipIdx [3].zipIdx (0, #[]) = .ok steps (6, answers) ∧
        steps.map Step.edit = [(some 1, some 3), (some 2, none)] ∧
        Policy.fickle.Orderly answers [1, 2] [3] steps) ∧
      ∃ steps answers, (cheapestEditsWithin Policy.callClock.onFst Policy.fickle.stepping.recorded
        { deadline := some ⟨20⟩ } [1, 2].zipIdx [3].zipIdx).run (0, #[]) =
          .ok (.ok steps) (6, answers) ∧
        steps.map Step.edit = [(some 1, some 3), (some 2, none)] ∧
        Policy.fickle.Orderly answers [1, 2] [3] steps := by
  obtain ⟨hscript, hedits, hwithin⟩ := cheapest_orderly Policy.fickle Policy.callClock
    { deadline := some ⟨20⟩ } [1, 2] [3] 0 6
  exact ⟨hscript _ rfl, hedits _ rfl, hwithin _ rfl⟩

end TreeDiff
