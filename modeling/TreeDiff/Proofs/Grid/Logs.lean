import TreeDiff.Proofs.Grid.Calls
import TreeDiff.Proofs.Grid.Paths
import TreeDiff.Proofs.Grid.Visits

/-!
# Runs with a log

A search does the same when its calls, or the answers of its comparisons, are written to a log.

* `Policy.traced_compare_eq_ok_iff`, `Policy.traced_cost_eq_ok_iff`: the log of the calls.
  `exists_trace` and `run_of_traced` relate a search to the one with this log.
* `Policy.recorded_compare_eq_ok_iff`: the log of the answers, and `exists_answers` for a search.
* `Policy.visits_recorded`: the log of a run holds the answers for all pairs, each once.
-/

namespace TreeDiff

variable {σ α β γ δ τ : Type}

/-! ## The log of the calls -/

namespace Policy

section

variable {P : Policy (Attempt σ) α β δ}

theorem traced_compare_eq_ok_iff {x : α} {y : β} {o : Option δ} {s s' : σ}
    {log log' : Array (Call α β δ)} : P.traced.compare x y (s, log) = .ok o (s', log') ↔
      P.compare x y s = .ok o s' ∧ log.push (.compare x y) = log' :=
  Attempt.record_onFst_eq_ok_iff

theorem traced_cost_eq_ok_iff {d : δ} {c : Nat} {s s' : σ} {log log' : Array (Call α β δ)} :
    P.traced.cost d (s, log) = .ok c (s', log') ↔
      P.cost d s = .ok c s' ∧ log.push (.cost d) = log' :=
  Attempt.record_onFst_eq_ok_iff

end

/-- Writing a log of the calls does not change what a policy does. -/
theorem related_traced (P : Policy (Attempt σ) α β δ) (interrupt : Interrupt (Attempt σ) τ)
    (xs : List α) (ys : List β) :
    Related ((Attempt.forgetting σ (Array (Call α β δ))).exceptT τ) P.traced P interrupt.onFst
      interrupt (fun _ _ _ => True) xs ys := by
  refine .of_steps rfl rfl rfl (fun _ _ => Attempt.forgetting_onFst _) (fun x _ y _ => ?_)
    (fun d => Attempt.forgetting_record _ _) fun Q => Attempt.forgetting_throw Q _
  have hcompare : (Attempt.forgetting σ (Array (Call α β δ))).Rel (fun _ => True)
      (P.traced.compare x y) (P.compare x y) := Attempt.forgetting_record _ _
  exact (Attempt.forgetting σ _).mono hcompare fun _ _ _ _ => trivial

end Policy

section

variable {P : Policy (Attempt σ) α β δ} {tie : TieBreak} {xs : List α} {ys : List β} {s s' : σ}

/-- A search that returns does so if its calls are written to a log. -/
theorem exists_trace {interrupt : Interrupt (Attempt σ) τ} {result : Except τ (Script δ)}
    (h : (search P tie interrupt xs ys).run s = .ok result s') (log : Array (Call α β δ)) :
    ∃ log', (search P.traced tie interrupt.onFst xs ys).run (s, log) = .ok result (s', log') :=
  Attempt.exists_run_of_forgetting ((P.related_traced interrupt xs ys).search tie) h log

/-- A search whose calls are written to a log does what it does without one. -/
theorem run_of_traced {interrupt : Interrupt (Attempt σ) τ} {result : Except τ (Script δ)}
    {log log' : Array (Call α β δ)}
    (h : (search P.traced tie interrupt.onFst xs ys).run (s, log) = .ok result (s', log')) :
    (search P tie interrupt xs ys).run s = .ok result s' := by
  have hforget := (P.related_traced interrupt xs ys).search tie s log
  have hrun : ExceptT.run (search P.traced tie interrupt.onFst xs ys) (s, log) = _ := h
  rw [hrun] at hforget
  exact hforget.2

end

/-! ## The log of the answers -/

/-- What does not look at the places of elements is the same for elements with their places. -/
theorem map_zipIdx_eq {ε ε' : Type} (f : ε → ε') (l : List ε) :
    (l.zipIdx.map fun e => f e.1) = l.map f := by
  conv_rhs => rw [← List.zipIdx_map_fst 0 l, List.map_map]
  rfl

namespace Policy

variable (P : Policy (Attempt σ) α β δ)

theorem recorded_compare_apply (x : α × Nat) (y : β × Nat) (s : σ) (log : Answers α β δ) :
    P.recorded.compare x y (s, log) = match P.compare x.1 y.1 s with
      | .ok o s' => .ok o (s', log.push ⟨x, y, o⟩)
      | .error e s' => .error e (s', log) := by
  simp only [recorded, bind, EStateM.bind, Attempt.onFst_apply]
  cases P.compare x.1 y.1 s <;> rfl

theorem recorded_compare_eq_ok_iff {x : α × Nat} {y : β × Nat} {s s' : σ} {o : Option δ}
    {log log' : Answers α β δ} :
    P.recorded.compare x y (s, log) = .ok o (s', log') ↔
      P.compare x.1 y.1 s = .ok o s' ∧ log.push ⟨x, y, o⟩ = log' := by
  rw [recorded_compare_apply]
  cases P.compare x.1 y.1 s with
  | ok o' s₁ =>
    constructor
    · rintro ⟨⟩
      exact ⟨rfl, rfl⟩
    · rintro ⟨⟨⟩, rfl⟩
      rfl
  | error e s₁ => constructor <;> nofun

/-- The log holds answers of the policy, on the pairs that have been compared. -/
structure Logged (pairs : List ((α × Nat) × (β × Nat))) (s : σ × Answers α β δ) : Prop where
  compared : s.2.toList.map (fun c => (c.first, c.second)) = pairs.reverse
  returned : ∀ c ∈ s.2, ∃ s s', P.compare c.first.1 c.second.1 s = .ok c.answer s'

variable {P} in
/-- What runs beside the log leaves it as it is. -/
theorem Logged.onFst {pairs : List ((α × Nat) × (β × Nat))} {s s' : σ × Answers α β δ}
    {x : Attempt σ γ} {a : γ} (h : P.Logged pairs s) (hrun : x.onFst s = .ok a s') :
    P.Logged pairs s' := by
  obtain ⟨-, hlog⟩ := Attempt.onFst_eq_ok_iff.1 hrun
  constructor
  · rw [← hlog]
    exact h.compared
  · rw [← hlog]
    exact h.returned

/-- Each comparison adds its answer to the log. -/
theorem visits_recorded (interrupt : Interrupt (Attempt σ) τ) :
    Visits P.Logged P.recorded interrupt.onFst where
  check hs hrun := hs.onFst hrun
  cost hs hrun := hs.onFst hrun
  compare := by
    intro pairs s s' x y o hs hrun
    obtain ⟨s, log⟩ := s
    obtain ⟨s', log'⟩ := s'
    obtain ⟨ho, rfl⟩ := P.recorded_compare_eq_ok_iff.1 hrun
    constructor
    · rw [Array.toList_push, List.map_append, hs.compared, List.reverse_cons]
      rfl
    · intro c hc
      rcases Array.mem_push.1 hc with hc | rfl
      · exact hs.returned c hc
      · exact ⟨s, s', ho⟩

/-- Writing a log of the answers does not change what a policy does. -/
theorem related_recorded (interrupt : Interrupt (Attempt σ) τ) (xs : List (α × Nat))
    (ys : List (β × Nat)) :
    Related ((Attempt.forgetting σ (Answers α β δ)).exceptT τ) P.recorded
      ((P.onFirst Prod.fst).onSecond Prod.fst) interrupt.onFst interrupt (fun _ _ _ => True) xs
      ys := by
  refine .of_steps rfl rfl rfl (fun _ _ => Attempt.forgetting_onFst _) (fun x _ y _ s log => ?_)
    (fun d => Attempt.forgetting_onFst _) fun Q => Attempt.forgetting_throw Q _
  have hcompare : ((P.onFirst Prod.fst).onSecond Prod.fst).compare x y s =
    P.compare x.1 y.1 s := rfl
  rw [recorded_compare_apply, hcompare]
  cases P.compare x.1 y.1 s with
  | ok o s' => exact ⟨fun _ _ => trivial, rfl⟩
  | error e s' => rfl

end Policy

/-- A run of the search writes down the answers of its comparisons. -/
theorem exists_answers (P : Policy (Attempt σ) α β δ) (tie : TieBreak)
    (interrupt : Interrupt (Attempt σ) τ) {xs : List α} {ys : List β} {s s' : σ} {script : Script δ}
    (h : (search P tie interrupt xs ys).run s = .ok (.ok script) s') :
    ∃ answers, (search P.recorded tie interrupt.onFst xs.zipIdx ys.zipIdx).run (s, #[]) =
      .ok (.ok script) (s', answers) := by
  have hnumbered : search P tie interrupt xs ys =
      search ((P.onFirst Prod.fst).onSecond Prod.fst) tie interrupt xs.zipIdx ys.zipIdx := by
    rw [← search_map_right, ← search_map, List.zipIdx_map_fst, List.zipIdx_map_fst]
  have hforget := (P.related_recorded interrupt xs.zipIdx ys.zipIdx).search tie
  rw [hnumbered] at h
  exact Attempt.exists_run_of_forgetting hforget h #[]

end TreeDiff
