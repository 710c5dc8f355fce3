import Mathlib.Data.List.Nodup
import TreeDiff.Proofs.Grid.Complete

/-!
# The calls of a search

A search calls the price for every element of the first sequence, then for every element of the
second, and then compares every pair of elements, the last elements first; a comparison that
succeeds is followed by the price of the match. There are no other calls, and none is repeated.

* `Comparison.calls`: a comparison and the price of its match.
* `Policy.Owes`: the calls so far, and the prices of elements that are still to come. Neither the
  price of an element (`Policy.Owes.cost`) nor a position (`Policy.Owes.cell`) changes what they
  amount to.
* `Policy.Protocol`: all calls of a run, in their order, and how many there are.
* `cheapest_protocol`: the calls of the search without a limit of time.
-/

namespace TreeDiff

variable {σ α β δ τ : Type}

/-! ## Calls in their order -/

/-- The comparison, and the price of the match if there is one. -/
def Comparison.calls (c : Comparison α β δ) : List (Call α β δ) :=
  .compare c.first c.second :: (c.answer.map Call.cost).toList

/-- The call asks for a price. -/
def Call.isCost : Call α β δ → Bool
  | .compare _ _ => false
  | .cost _ => true

@[simp] theorem Call.isCost_compare (x : α) (y : β) :
    (compare x y : Call α β δ).isCost = false := rfl

@[simp] theorem Call.isCost_cost (d : δ) : (cost d : Call α β δ).isCost = true := rfl

/-- Each comparison is a call, and is followed by a price if it has succeeded. -/
theorem Comparison.countP_calls (answers : List (Comparison α β δ)) :
    (answers.flatMap calls).countP (!·.isCost) = answers.length ∧
      (answers.flatMap calls).countP Call.isCost = answers.countP (·.answer.isSome) := by
  induction answers with
  | nil => exact ⟨rfl, rfl⟩
  | cons c answers ih =>
    rw [List.flatMap_cons, List.countP_append, List.countP_append, ih.1, ih.2]
    obtain ⟨x, y, _ | d⟩ := c
    · simp [calls]
      omega
    · simp [calls]
      omega

namespace Policy

/-- The prices of the elements of two sequences. -/
def prices (P : Policy (Attempt σ) α β δ) (xs : List α) (ys : List β) : List (Call α β δ) :=
  xs.map (fun x => .cost (P.delete x)) ++ ys.map fun y => .cost (P.insert y)

variable (P : Policy (Attempt σ) α β δ)

theorem countP_prices (xs : List α) (ys : List β) :
    (P.prices xs ys).countP (!·.isCost) = 0 ∧
      (P.prices xs ys).countP Call.isCost = xs.length + ys.length := by
  simp [prices, List.countP_map, Function.comp_def]

/-- The calls so far, and the prices of `xs` and `ys` that are still to come, are `first` and the
calls of the comparisons so far. -/
def Owes (first : List (Call (α × Nat) (β × Nat) δ)) (xs : List (α × Nat)) (ys : List (β × Nat))
    (s : (σ × Answers α β δ) × Array (Call (α × Nat) (β × Nat) δ)) : Prop :=
  s.2.toList ++ P.recorded.prices xs ys = first ++ s.1.2.toList.flatMap Comparison.calls

variable {P} {first : List (Call (α × Nat) (β × Nat) δ)} {xs : List (α × Nat)} {ys : List (β × Nat)}
  {s s' : (σ × Answers α β δ) × Array (Call (α × Nat) (β × Nat) δ)}

/-- What runs beside the logs leaves them as they are. -/
theorem Owes.onFst {γ : Type} {x : Attempt σ γ} {a : γ} (h : P.Owes first xs ys s)
    (hrun : x.onFst.onFst s = .ok a s') : P.Owes first xs ys s' := by
  obtain ⟨hrun, hcalls⟩ := Attempt.onFst_eq_ok_iff.1 hrun
  obtain ⟨-, hanswers⟩ := Attempt.onFst_eq_ok_iff.1 hrun
  unfold Owes at h ⊢
  rwa [← hcalls, ← hanswers]

/-- A price that is paid is the first of those that were still to come. -/
theorem Owes.cost {d : δ} {c : Nat} {xs' : List (α × Nat)} {ys' : List (β × Nat)}
    (h : P.Owes first xs ys s) (hrun : P.recorded.traced.cost d s = .ok c s')
    (hprices : P.recorded.prices xs ys = .cost d :: P.recorded.prices xs' ys') :
    P.Owes first xs' ys' s' := by
  obtain ⟨⟨s, answers⟩, calls⟩ := s
  obtain ⟨⟨s', answers'⟩, calls'⟩ := s'
  obtain ⟨hcost, rfl⟩ := traced_cost_eq_ok_iff.1 hrun
  obtain ⟨-, rfl⟩ := Attempt.onFst_eq_ok_iff.1 hcost
  unfold Owes at h ⊢
  rw [← h, hprices, Array.toList_push, List.append_assoc]
  rfl

/-- A position adds a comparison to both logs. -/
theorem Owes.cell {tie : TieBreak} {x : Priced (α × Nat) δ} {y : Priced (β × Nat) δ}
    {lost gained both script : Script δ} (h : P.Owes first [] [] s)
    (hrun : P.recorded.traced.cell tie x y lost gained both s = .ok script s') :
    P.Owes first [] [] s' := by
  obtain ⟨⟨s, answers⟩, calls⟩ := s
  obtain ⟨⟨s', answers'⟩, calls'⟩ := s'
  -- nothing is owed any more, and so the calls are those of `first` and of the comparisons
  have hcalls : calls.toList = first ++ answers.toList.flatMap Comparison.calls :=
    (List.append_nil _).symm.trans h
  refine (List.append_nil _).trans ?_
  obtain ⟨-, -, -, -, ⟨hcompare, -⟩ | ⟨d, c, ⟨⟨s₁, answers₁⟩, calls₁⟩, -, hcompare, hcost, -⟩⟩ :=
    cell_cases hrun
  · obtain ⟨hanswer, rfl⟩ := traced_compare_eq_ok_iff.1 hcompare
    obtain ⟨-, rfl⟩ := P.recorded_compare_eq_ok_iff.1 hanswer
    simp [hcalls, Comparison.calls]
  · obtain ⟨hanswer, rfl⟩ := traced_compare_eq_ok_iff.1 hcompare
    obtain ⟨-, rfl⟩ := P.recorded_compare_eq_ok_iff.1 hanswer
    obtain ⟨hprice, rfl⟩ := traced_cost_eq_ok_iff.1 hcost
    obtain ⟨-, rfl⟩ := Attempt.onFst_eq_ok_iff.1 hprice
    simp [hcalls, Comparison.calls]

/-! ## The search -/

variable (P) (tie : TieBreak) (interrupt : Interrupt (Attempt σ) τ)

theorem rowRule_owes (ps : List (Priced (α × Nat) δ)) (qs : List (Priced (β × Nat) δ)) :
    RowRule (Attempt.leading τ _) P.recorded.traced P.recorded.traced tie interrupt.onFst.onFst
      interrupt.onFst.onFst ps qs { here := fun _ _ _ => True }
      (fun _ _ => P.Owes first [] []) where
  done := trivial
  delete _ _ := Attempt.leading_except (fun _ _ => ⟨trivial, trivial⟩) fun _ hs => hs
  insert _ _ := Attempt.leading_except (fun _ _ => ⟨trivial, trivial⟩) fun _ hs => hs
  position _ _ _ _ _ _ _ := by
    refine (Attempt.leading τ _).bind
      (Attempt.leading_check fun _ _ _ hs hrun => hs.onFst hrun) fun _ _ => ?_
    exact Attempt.leading_liftM fun _ _ _ hs hrun =>
      ⟨⟨trivial, trivial, trivial⟩, hs.cell hrun⟩

/-- The calls of a search that returns are the prices of all elements, and then the comparisons with
the prices of their matches. -/
theorem calls_search {script : Script δ} {s s' : σ} {answers : Answers α β δ}
    {calls : Array (Call (α × Nat) (β × Nat) δ)}
    (h : (search P.recorded.traced tie interrupt.onFst.onFst xs ys).run ((s, #[]), #[]) =
      .ok (.ok script) ((s', answers), calls)) :
    calls.toList = P.recorded.prices xs ys ++ answers.toList.flatMap Comparison.calls := by
  have hsearch : (Attempt.leading τ _).Rel (P.Owes (P.recorded.prices xs ys) xs ys)
      (fun _ => True) (P.Owes (P.recorded.prices xs ys) [] [])
      (search P.recorded.traced tie interrupt.onFst.onFst xs ys)
      (search P.recorded.traced tie interrupt.onFst.onFst xs ys) := by
    refine Tracking.search (K := fun _ _ => True) (A := P.Owes (P.recorded.prices xs ys)) rfl rfl
      (fun x xs' _ => ?_) (fun y ys' _ => ?_) fun ps qs _ _ _ _ => ?_
    · exact Attempt.leading_liftM fun _ _ _ hs hrun => ⟨trivial, hs.cost hrun rfl⟩
    · exact Attempt.leading_liftM fun _ _ _ hs hrun => ⟨trivial, hs.cost hrun rfl⟩
    · exact Tracking.mono _ (P.rowRule_owes tie interrupt ps qs).topRow fun _ _ => trivial
  have hstart : P.Owes (P.recorded.prices xs ys) xs ys ((s, #[]), #[]) :=
    (List.append_nil _).symm
  have hend := (hsearch ((s, #[]), #[]) script ((s', answers), calls) hstart h).2
  exact (List.append_nil _).symm.trans hend

end Policy

/-- The calls of a run, with the answers of its comparisons. -/
structure Policy.Protocol (P : Policy (Attempt σ) α β δ) (xs : List α) (ys : List β)
    (answers : Answers α β δ) (calls : Array (Call (α × Nat) (β × Nat) δ)) : Prop where
  /-- Front to back, all deletions are priced and then all insertions. Comparisons follow, and the
  price of a match comes directly after its comparison. -/
  order : calls.toList = xs.map (fun x => .cost (P.delete x)) ++
    ys.map (fun y => .cost (P.insert y)) ++ answers.toList.flatMap Comparison.calls
  /-- The elements at any two places are compared once, from the end of both sequences to the front
  of them; the second sequence is gone through for each element of the first one. -/
  compared : answers.toList.map (fun c => (c.first, c.second)) = (xs.zipIdx ×ˢ ys.zipIdx).reverse
  places : answers.toList.map (fun c => (c.first.2, c.second.2)) =
    (List.range xs.length ×ˢ List.range ys.length).reverse
  /-- No pair of places is repeated. -/
  once : (answers.toList.map fun c => (c.first.2, c.second.2)).Nodup
  comparisons : calls.toList.countP (!·.isCost) = xs.length * ys.length
  costs : calls.toList.countP Call.isCost =
    xs.length + ys.length + answers.toList.countP (·.answer.isSome)

/-- The places of the elements that are compared, from the elements with their places. -/
theorem places_eq {answers : Answers α β δ} {xs : List α} {ys : List β}
    (h : answers.toList.map (fun c => (c.first, c.second)) = (xs.zipIdx ×ˢ ys.zipIdx).reverse) :
    answers.toList.map (fun c => (c.first.2, c.second.2)) =
      (List.range xs.length ×ˢ List.range ys.length).reverse := by
  have hproduct : ∀ (l : List (α × Nat)) (l' : List (β × Nat)),
      (l ×ˢ l').map (Prod.map Prod.snd Prod.snd) = l.map Prod.snd ×ˢ l'.map Prod.snd := by
    intro l l'
    induction l with
    | nil => rfl
    | cons e l ih => simp [List.product_cons, ih, Function.comp_def]
  have hmap := congrArg (List.map (Prod.map Prod.snd Prod.snd)) h
  rw [List.map_map, List.map_reverse, hproduct, List.zipIdx_map_snd, List.zipIdx_map_snd,
    ← List.range_eq_range', ← List.range_eq_range'] at hmap
  exact hmap

theorem Policy.Protocol.of_calls {P : Policy (Attempt σ) α β δ} {xs : List α} {ys : List β}
    {answers : Answers α β δ} {calls : Array (Call (α × Nat) (β × Nat) δ)}
    (hcalls : calls.toList = P.recorded.prices xs.zipIdx ys.zipIdx ++
      answers.toList.flatMap Comparison.calls)
    (hcompared : answers.toList.map (fun c => (c.first, c.second)) =
      (xs.zipIdx ×ˢ ys.zipIdx).reverse) : P.Protocol xs ys answers calls where
  order := by
    have hprices : P.recorded.prices xs.zipIdx ys.zipIdx =
        xs.map (fun x => .cost (P.delete x)) ++ ys.map fun y => .cost (P.insert y) :=
      congrArg₂ (· ++ ·) (map_zipIdx_eq (fun x => Call.cost (P.delete x)) xs)
        (map_zipIdx_eq (fun y => Call.cost (P.insert y)) ys)
    rw [hcalls, hprices]
  compared := hcompared
  places := places_eq hcompared
  once := by
    rw [places_eq hcompared]
    exact List.nodup_reverse.2 (List.Nodup.product List.nodup_range List.nodup_range)
  comparisons := by
    have hlength := congrArg List.length hcompared
    rw [List.length_map, List.length_reverse, List.length_product, List.length_zipIdx,
      List.length_zipIdx] at hlength
    rw [hcalls, List.countP_append, (P.recorded.countP_prices _ _).1,
      (Comparison.countP_calls _).1, hlength, Nat.zero_add]
  costs := by
    rw [hcalls, List.countP_append, (P.recorded.countP_prices _ _).2,
      (Comparison.countP_calls _).2, List.length_zipIdx, List.length_zipIdx]

/-! ## Calls -/

/-- A search that returns calls the policy in this order. -/
theorem search_protocol (P : Policy (Attempt σ) α β δ) (tie : TieBreak)
    (interrupt : Interrupt (Attempt σ) τ) {xs : List α} {ys : List β} {s s' : σ} {script : Script δ}
    (h : (search P tie interrupt xs ys).run s = .ok (.ok script) s') :
    ∃ answers calls, (search P.recorded.traced tie interrupt.onFst.onFst xs.zipIdx ys.zipIdx).run
      ((s, #[]), #[]) = .ok (.ok script) ((s', answers), calls) ∧
        P.Protocol xs ys answers calls := by
  obtain ⟨answers, hanswers⟩ := exists_answers P tie interrupt h
  obtain ⟨calls, hcalls⟩ := exists_trace hanswers #[]
  have hempty : P.Logged [] (s, #[]) := ⟨rfl, fun c hc => absurd hc (Array.not_mem_empty c)⟩
  have hlogged := (P.visits_recorded interrupt).search hempty hanswers
  exact ⟨answers, calls, hcalls, .of_calls (P.calls_search tie interrupt hcalls) hlogged.compared⟩

/-- **The calls of a search without a limit of time**, whatever the callbacks answer and however
their answers change from call to call. -/
theorem cheapest_protocol (P : Policy (Attempt σ) α β δ) (clock : Attempt σ Instant)
    (settings : Settings) (xs : List α) (ys : List β) (s s' : σ) :
    (∀ script, cheapestScript P settings xs ys s = .ok script s' →
      ∃ answers calls, cheapestScript P.recorded.traced settings xs.zipIdx ys.zipIdx
        ((s, #[]), #[]) = .ok script ((s', answers), calls) ∧ P.Protocol xs ys answers calls) ∧
    (∀ edits, cheapestEdits P settings xs ys s = .ok edits s' →
      ∃ answers calls, cheapestEdits P.recorded.traced settings xs.zipIdx ys.zipIdx
        ((s, #[]), #[]) = .ok edits ((s', answers), calls) ∧ P.Protocol xs ys answers calls) ∧
    ∀ edits, (cheapestEditsWithin clock P { settings with deadline := none } xs ys).run s =
        .ok (.ok edits) s' →
      ∃ answers calls, (cheapestEditsWithin clock.onFst.onFst P.recorded.traced
        { settings with deadline := none } xs.zipIdx ys.zipIdx).run ((s, #[]), #[]) =
          .ok (.ok edits) ((s', answers), calls) ∧ P.Protocol xs ys answers calls := by
  refine ⟨?_, ?_, ?_⟩
  · intro script h
    obtain ⟨answers, calls, hrun, hprotocol⟩ :=
      search_protocol P settings.tieBreak .never (uninterrupted_eq_ok_iff.1 h)
    exact ⟨answers, calls, uninterrupted_eq_ok_iff.2 hrun, hprotocol⟩
  · intro edits h
    obtain ⟨script, hsearch, rfl⟩ := cheapestEdits_eq_ok_iff.1 h
    obtain ⟨answers, calls, hrun, hprotocol⟩ :=
      search_protocol P settings.tieBreak .never hsearch
    exact ⟨answers, calls, cheapestEdits_eq_ok_iff.2 ⟨script, hrun, rfl⟩, hprotocol⟩
  · intro edits h
    obtain ⟨script, hsearch, rfl⟩ := cheapestEditsWithin_eq_ok_iff.1 h
    obtain ⟨answers, calls, hrun, hprotocol⟩ := search_protocol P settings.tieBreak _ hsearch
    rw [Interrupt.onFst_deadline, Interrupt.onFst_deadline] at hrun
    exact ⟨answers, calls, cheapestEditsWithin_eq_ok_iff.2 ⟨script, hrun, rfl⟩, hprotocol⟩

theorem cheapest_protocol_fickle :
    (∃ answers calls, cheapestScript Policy.fickle.recorded.traced {} [1, 2].zipIdx [3].zipIdx
        ((0, #[]), #[]) = .ok ⟨[((some 1, some 3), 2), ((some 2, none), 1)]⟩ ((6, answers), calls) ∧
        Policy.fickle.Protocol [1, 2] [3] answers calls) ∧
      (∃ answers calls, cheapestEdits Policy.fickle.recorded.traced {} [1, 2].zipIdx [3].zipIdx
        ((0, #[]), #[]) = .ok [(some 1, some 3), (some 2, none)] ((6, answers), calls) ∧
        Policy.fickle.Protocol [1, 2] [3] answers calls) ∧
      ∃ answers calls, (cheapestEditsWithin Policy.callClock.onFst.onFst
        Policy.fickle.recorded.traced {} [1, 2].zipIdx [3].zipIdx).run ((0, #[]), #[]) =
          .ok (.ok [(some 1, some 3), (some 2, none)]) ((6, answers), calls) ∧
        Policy.fickle.Protocol [1, 2] [3] answers calls := by
  obtain ⟨hscript, hedits, hwithin⟩ := cheapest_protocol Policy.fickle Policy.callClock {} [1, 2]
    [3] 0 6
  exact ⟨hscript _ rfl, hedits _ rfl, hwithin _ rfl⟩

end TreeDiff
