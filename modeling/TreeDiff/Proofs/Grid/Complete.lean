import TreeDiff.Proofs.Grid.Logs

/-!
# Every script is complete

Whatever the callbacks answer, and however their answers change from call to call, a script that is
returned takes every element of the two sequences once and in order: it deletes it, inserts it, or
matches it by what the comparison of these two elements has returned in the same run.

That a match is among the answers of its own run can not be shown from position to position, since
the answers come one after the other. So the run is compared with one that admits no answers but
those of a given log: where it returns, it gives the same script, and all its matches are of the
log.

* `Policy.IsEditPath`: a complete edit path for given answers of the comparisons.
* `search_isEditPath`: the search, with any interrupt.
* `cheapest_isEditPath`: all calls of the search.
-/

namespace TreeDiff

variable {σ α β γ δ τ : Type}

namespace Policy

/-- What is read off the edits: the elements of the first sequence as their old sides, and those of
the second as their new sides. -/
structure Reads (P : Policy (Attempt σ) α β δ) (answers : Answers α β δ) (old : δ → Option α)
    (new : δ → Option β) : Prop where
  old_delete : ∀ x, old (P.delete x) = some x
  old_insert : ∀ y, old (P.insert y) = none
  old_match : ∀ x y d, ⟨x, y, some d⟩ ∈ answers → old d = some x.1
  new_delete : ∀ x, new (P.delete x) = none
  new_insert : ∀ y, new (P.insert y) = some y
  new_match : ∀ x y d, ⟨x, y, some d⟩ ∈ answers → new d = some y.1

/-- The edits are a complete edit path for the answers of the comparisons. -/
structure IsEditPath (P : Policy (Attempt σ) α β δ) (answers : Answers α β δ) (xs : List α)
    (ys : List β) (edits : List δ) : Prop where
  /-- The edits take the elements of both sequences place by place. A match is what the comparison
  of the elements at its two places has returned, and the number of edits is the number of elements
  less the number of matches. -/
  path : ∃ steps, TreeDiff.Path P.recorded.delete P.recorded.insert
    (fun x y d => ⟨x, y, some d⟩ ∈ answers) xs.zipIdx ys.zipIdx steps ∧
      steps.map Step.edit = edits ∧
      edits.length + steps.countP (·.move = .both) = xs.length + ys.length
  /-- The elements at any two places have been compared once. -/
  compared : answers.toList.map (fun c => (c.first, c.second)) = (xs.zipIdx ×ˢ ys.zipIdx).reverse
  /-- The answers are those of the policy. -/
  returned : ∀ c ∈ answers, ∃ s s', P.compare c.first.1 c.second.1 s = .ok c.answer s'
  /-- The old sides of the edits are the first sequence. -/
  olds : ∀ old new, P.Reads answers old new → edits.filterMap old = xs
  /-- The new sides of the edits are the second sequence. -/
  news : ∀ old new, P.Reads answers old new → edits.filterMap new = ys

/-- The sides of a complete edit path are read off its edits. -/
theorem IsEditPath.of_path {P : Policy (Attempt σ) α β δ} {answers : Answers α β δ} {xs : List α}
    {ys : List β} {steps : List (Step δ)}
    (hpath : TreeDiff.Path P.recorded.delete P.recorded.insert
      (fun x y d => ⟨x, y, some d⟩ ∈ answers) xs.zipIdx ys.zipIdx steps)
    (hcompared : answers.toList.map (fun c => (c.first, c.second)) =
      (xs.zipIdx ×ˢ ys.zipIdx).reverse)
    (hreturned : ∀ c ∈ answers, ∃ s s', P.compare c.first.1 c.second.1 s = .ok c.answer s') :
    P.IsEditPath answers xs ys (steps.map Step.edit) where
  path := by
    refine ⟨steps, hpath, rfl, ?_⟩
    have hlength := hpath.length_add_matches
    rwa [List.length_zipIdx, List.length_zipIdx, ← List.length_map Step.edit] at hlength
  compared := hcompared
  returned := hreturned
  olds old new h := by
    have hdelete : ∀ x, old (P.recorded.delete x) = some x.1 := fun x => h.old_delete x.1
    have hinsert : ∀ y, old (P.recorded.insert y) = none := fun y => h.old_insert y.1
    rw [hpath.filterMap_old hdelete hinsert h.old_match, List.zipIdx_map_fst]
  news old new h := by
    have hdelete : ∀ x, new (P.recorded.delete x) = none := fun x => h.new_delete x.1
    have hinsert : ∀ y, new (P.recorded.insert y) = some y.1 := fun y => h.new_insert y.1
    rw [hpath.filterMap_new hdelete hinsert h.new_match, List.zipIdx_map_fst]

/-! ## Runs that admit given answers only -/

variable (P : Policy (Attempt σ) α β δ)

/-- The policy on numbered elements that ends in a fault if the answer of a comparison is not
admitted. -/
def admitting (admits : Comparison (α × Nat) (β × Nat) δ → Bool) :
    Policy (Attempt σ) (α × Nat) (β × Nat) δ where
  delete x := P.delete x.1
  insert y := P.insert y.1
  compare x y := do
    let answer ← P.compare x.1 y.1
    if admits ⟨x, y, answer⟩ then return answer else throw .costOverflow
  cost := P.cost
  ceiling := P.ceiling

variable (interrupt : Interrupt (Attempt σ) τ) (xs : List (α × Nat)) (ys : List (β × Nat))

variable {P} in
theorem admitting_compare_eq_ok_iff {admits : Comparison (α × Nat) (β × Nat) δ → Bool}
    {x : α × Nat} {y : β × Nat} {s s' : σ} {o : Option δ} :
    (P.admitting admits).compare x y s = .ok o s' ↔
      P.compare x.1 y.1 s = .ok o s' ∧ admits ⟨x, y, o⟩ = true := by
  constructor
  · intro hrun
    obtain ⟨o', s₁, ho', hadmit⟩ := Attempt.bind_eq_ok_iff.1 hrun
    by_cases hadmitted : admits ⟨x, y, o'⟩ = true
    · rw [if_pos hadmitted] at hadmit
      cases hadmit
      exact ⟨ho', hadmitted⟩
    · rw [if_neg hadmitted] at hadmit
      cases hadmit
  · rintro ⟨ho, hadmitted⟩
    refine Attempt.bind_eq_ok_iff.2 ⟨o, s', ho, ?_⟩
    rw [if_pos hadmitted]
    rfl

/-- A run that writes down admitted answers only is a run of the policy that admits no others. -/
theorem related_admitting (final : Answers α β δ) {admits : Comparison (α × Nat) (β × Nat) δ → Bool}
    (hadmits : ∀ c ∈ final, admits c = true) :
    Related ((Attempt.admitting σ final).exceptT τ) (P.admitting admits) P.recorded interrupt
      interrupt.onFst (fun _ _ _ => True) xs ys := by
  refine .of_steps rfl rfl rfl (fun _ _ => Attempt.admitting_onFst final _) (fun x _ y _ => ?_)
    (fun d => Attempt.admitting_onFst final _) fun Q => Attempt.admitting_throw final Q _
  intro s log o s' log' hrun
  obtain ⟨ho, rfl⟩ := P.recorded_compare_eq_ok_iff.1 hrun
  refine ⟨fun _ _ => trivial, fun c hc => Array.mem_push_of_mem _ hc, fun hfinal => ?_⟩
  have hmem : (⟨x, y, o⟩ : Comparison (α × Nat) (β × Nat) δ) ∈ log.push ⟨x, y, o⟩ :=
    Array.mem_push_self
  exact admitting_compare_eq_ok_iff.2 ⟨ho, hadmits _ (hfinal _ hmem)⟩

/-- All matches of a run that admits given answers only are among them. -/
theorem related_returning (admits : Comparison (α × Nat) (β × Nat) δ → Bool) :
    Related ((Attempt.returning σ).exceptT τ) (P.admitting admits) (P.admitting admits) interrupt
      interrupt (fun x y d => admits ⟨x, y, some d⟩ = true) xs ys := by
  refine .of_steps rfl rfl rfl (fun _ _ _ _ _ _ => trivial) (fun x _ y _ => ?_)
    (fun _ _ _ _ _ => trivial) fun Q => Attempt.returning_throw Q _
  rintro s o s' hrun d rfl
  exact (admitting_compare_eq_ok_iff.1 hrun).2

end Policy

/-! ## The search -/

section

variable (P : Policy (Attempt σ) α β δ) (tie : TieBreak) (interrupt : Interrupt (Attempt σ) τ)
  {xs : List α} {ys : List β} {s s' : σ} {script : Script δ} {answers : Answers α β δ}

/-- A script that a run of the search returns is that of a path, whose matches are among the answers
of the run. -/
theorem follows_of_recorded
    (h : (search P.recorded tie interrupt.onFst xs.zipIdx ys.zipIdx).run (s, #[]) =
      .ok (.ok script) (s', answers)) :
    script.Follows P.recorded.delete P.recorded.insert (fun x y d => ⟨x, y, some d⟩ ∈ answers)
      xs.zipIdx ys.zipIdx := by
  classical
  have hadmits : ∀ c ∈ answers, decide (c ∈ answers) = true := fun c hc => decide_eq_true hc
  have hadmitting := (P.related_admitting interrupt xs.zipIdx ys.zipIdx answers hadmits).search tie
  obtain ⟨-, -, hrun⟩ := hadmitting s #[] _ s' answers h
  have hreturning := (P.related_returning interrupt xs.zipIdx ys.zipIdx
    fun c => decide (c ∈ answers)).search tie
  have hfollows := hreturning s _ s' (hrun fun c hc => hc) script rfl
  simp only [decide_eq_true_eq] at hfollows
  exact hfollows

/-- **A script that is returned is a complete edit path.** -/
theorem search_isEditPath (h : (search P tie interrupt xs ys).run s = .ok (.ok script) s') :
    ∃ answers, (search P.recorded tie interrupt.onFst xs.zipIdx ys.zipIdx).run (s, #[]) =
      .ok (.ok script) (s', answers) ∧ P.IsEditPath answers xs ys script.edits := by
  obtain ⟨answers, hanswers⟩ := exists_answers P tie interrupt h
  obtain ⟨steps, hpath, hedits⟩ := follows_of_recorded P tie interrupt hanswers
  have hempty : P.Logged [] (s, #[]) := ⟨rfl, fun c hc => absurd hc (Array.not_mem_empty c)⟩
  have hlogged := (P.visits_recorded interrupt).search hempty hanswers
  rw [← hedits]
  exact ⟨answers, hanswers, .of_path hpath hlogged.compared hlogged.returned⟩

end

/-! ## Calls -/

/-- **Every list that a search returns is a complete edit path**, whatever the callbacks answer and
however their answers change from call to call. -/
theorem cheapest_isEditPath (P : Policy (Attempt σ) α β δ) (clock : Attempt σ Instant)
    (settings : Settings) (xs : List α) (ys : List β) (s s' : σ) :
    (∀ script, cheapestScript P settings xs ys s = .ok script s' →
      ∃ answers, cheapestScript P.recorded settings xs.zipIdx ys.zipIdx (s, #[]) =
        .ok script (s', answers) ∧ P.IsEditPath answers xs ys script.edits) ∧
    (∀ edits, cheapestEdits P settings xs ys s = .ok edits s' →
      ∃ answers, cheapestEdits P.recorded settings xs.zipIdx ys.zipIdx (s, #[]) =
        .ok edits (s', answers) ∧ P.IsEditPath answers xs ys edits) ∧
    ∀ edits, (cheapestEditsWithin clock P settings xs ys).run s = .ok (.ok edits) s' →
      ∃ answers, (cheapestEditsWithin clock.onFst P.recorded settings xs.zipIdx ys.zipIdx).run
        (s, #[]) = .ok (.ok edits) (s', answers) ∧ P.IsEditPath answers xs ys edits := by
  refine ⟨?_, ?_, ?_⟩
  · intro script h
    obtain ⟨answers, hrun, hpath⟩ :=
      search_isEditPath P settings.tieBreak .never (uninterrupted_eq_ok_iff.1 h)
    rw [Interrupt.onFst_never] at hrun
    exact ⟨answers, uninterrupted_eq_ok_iff.2 hrun, hpath⟩
  · intro edits h
    obtain ⟨script, hsearch, rfl⟩ := cheapestEdits_eq_ok_iff.1 h
    obtain ⟨answers, hrun, hpath⟩ := search_isEditPath P settings.tieBreak .never hsearch
    rw [Interrupt.onFst_never] at hrun
    exact ⟨answers, cheapestEdits_eq_ok_iff.2 ⟨script, hrun, rfl⟩, hpath⟩
  · intro edits h
    obtain ⟨limit, s₁, hlimit, h⟩ := Attempt.run_bind_eq_ok h
    obtain ⟨script, s₂, hsearch, hedits⟩ := Attempt.run_bind_eq_ok h
    cases hedits
    obtain ⟨answers, hrun, hpath⟩ := search_isEditPath P settings.tieBreak _ hsearch
    rw [Interrupt.onFst_deadline] at hrun
    refine ⟨answers, ?_, hpath⟩
    unfold cheapestEditsWithin
    rw [Attempt.run_bind, Settings.run_limit_onFst hlimit]
    dsimp only
    rw [Attempt.run_bind, hrun]
    rfl

/-- The policy that matches whatever it is asked about, but only when the number of calls so far is
even. -/
def Policy.fickle : Policy (Attempt Nat) Nat Nat (Option Nat × Option Nat) where
  delete x := (some x, none)
  insert y := (none, some y)
  compare x y calls := .ok (if calls % 2 = 0 then some (some x, some y) else none) (calls + 1)
  cost _ calls := .ok 1 (calls + 1)

/-- The clock on which each call takes a nanosecond. -/
def Policy.callClock : Attempt Nat Instant := fun calls => .ok ⟨calls⟩ calls

theorem cheapest_isEditPath_fickle :
    (∃ answers, cheapestScript Policy.fickle.recorded { deadline := some ⟨20⟩ } [1, 2].zipIdx
        [3].zipIdx (0, #[]) =
          .ok ⟨[((some 1, some 3), 2), ((some 2, none), 1)]⟩ (6, answers) ∧
        Policy.fickle.IsEditPath answers [1, 2] [3] [(some 1, some 3), (some 2, none)]) ∧
      (∃ answers, cheapestEdits Policy.fickle.recorded { deadline := some ⟨20⟩ } [1, 2].zipIdx
        [3].zipIdx (0, #[]) = .ok [(some 1, some 3), (some 2, none)] (6, answers) ∧
        Policy.fickle.IsEditPath answers [1, 2] [3] [(some 1, some 3), (some 2, none)]) ∧
      ∃ answers, (cheapestEditsWithin Policy.callClock.onFst Policy.fickle.recorded
        { deadline := some ⟨20⟩ } [1, 2].zipIdx [3].zipIdx).run (0, #[]) =
          .ok (.ok [(some 1, some 3), (some 2, none)]) (6, answers) ∧
        Policy.fickle.IsEditPath answers [1, 2] [3] [(some 1, some 3), (some 2, none)] := by
  obtain ⟨hscript, hedits, hwithin⟩ := cheapest_isEditPath Policy.fickle Policy.callClock
    { deadline := some ⟨20⟩ } [1, 2] [3] 0 6
  exact ⟨hscript _ rfl, hedits _ rfl, hwithin _ rfl⟩

end TreeDiff
