import TreeDiff.Proofs.Differ.Expiry
import TreeDiff.Proofs.Differ.Watch

/-!
# The account that a search keeps

When a check finds the limit reached, its search ends. The search around it gets no match, and goes
on to its next position, where it finds the limit reached as well; it has none left only if it
stands at its last position. All the while it keeps an account of the report and of what the watch
has seen.

* `Watch.ending`, `Watch.Leads`: runs from one account to another.
* `Watch.ending_check`, `Watch.leads_inside`: what a check and a comparison make of it.
* `Differ.ending_searchScript`, `Differ.leads_watchedMatch?`: every search and every match keeps it,
  by induction on the first tree.
* `Differ.over_watchedMatch?`, `Differ.over_watchedSearch`: the search of a call is over in the end.
-/

namespace TreeDiff

variable {σ γ ℓ : Type}

/-! ## Runs that keep the account -/

namespace Watch

variable {limit : Instant} {outer : List Frame} {c p : Frame} {a b : Tree ℓ}
  {A B : Option Timeout × Watch ℓ → Prop}

/-- Runs from a report and a watch with the property `A` that return lead to ones with the
property `B`. -/
def Leads (A B : Option Timeout × Watch ℓ → Prop)
    (x : Reporting Timeout (Attempt (σ × Watch ℓ)) γ) : Prop :=
  ∀ r s w a r' s' w', A (r, w) → x.run r (s, w) = .ok (a, r') (s', w') → B (r', w')

/-- Runs that return lead from reports and watches to ones with certain properties. A run that ends
early counts as one that leaves its end as its report, and that has the property `E`. -/
def ending (σ ℓ : Type) (E : Option Timeout × Watch ℓ → Prop) :
    Tracking (Option Timeout × Watch ℓ)
      (ExceptT Timeout (Reporting Timeout (Attempt (σ × Watch ℓ))))
      (ExceptT Timeout (Reporting Timeout (Attempt (σ × Watch ℓ)))) where
  Rel A Q B x _ := ∀ r s w p r' s' w', A (r, w) → x.run.run r (s, w) = .ok (p, r') (s', w') →
    match p with
    | .ok a => Q a ∧ B (r', w')
    | .error t => E (some t, w')
  pure h hAB := by
    rintro r s w p r' s' w' hA ⟨⟩
    exact ⟨h, hAB _ hA⟩
  bind := by
    intro _ _ Q R A B C x _ f _ hx hf r s w p r' s' w' hA hrun
    rw [Reporting.run_bind] at hrun
    cases hxrun : x.run.run r (s, w) with
    | error e s₁ =>
      rw [hxrun] at hrun
      cases hrun
    | ok q s₁ =>
      obtain ⟨q, r₁⟩ := q
      obtain ⟨s₁, w₁⟩ := s₁
      have hx := hx r s w q r₁ s₁ w₁ hA hxrun
      rw [hxrun] at hrun
      cases q with
      | error t =>
        cases hrun
        exact hx
      | ok a => exact hf a hx.1 r₁ s₁ w₁ p r' s' w' hx.2 hrun

variable {E : Option Timeout × Watch ℓ → Prop}

theorem ending_of_leads {x : Reporting Timeout (Attempt (σ × Watch ℓ)) γ} {Q : γ → Prop}
    (hQ : ∀ a, Q a) (h : Leads A B x) :
    ((ending σ ℓ E).comap (Reporting Timeout (Attempt (σ × Watch ℓ)))
      (Reporting Timeout (Attempt (σ × Watch ℓ)))).Rel A Q B x x := by
  intro r s w p r' s' w' hA hrun
  rw [Reporting.run_liftM_self] at hrun
  cases hx : x.run r (s, w) with
  | error e s₁ =>
    rw [hx] at hrun
    cases hrun
  | ok q s₁ =>
    rw [hx] at hrun
    cases hrun
    exact ⟨hQ _, h r s w _ _ _ _ hA hx⟩

theorem ending_except (hAB : ∀ k, A k → B k) (x : Except Fault γ) :
    ((ending σ ℓ E).comap (Except Fault) (Except Fault)).Rel A (fun _ => True) B x x := by
  intro r s w p r' s' w' hA hrun
  rw [Reporting.run_liftM_except] at hrun
  cases x with
  | error e => cases hrun
  | ok a =>
    cases hrun
    exact ⟨trivial, hAB _ hA⟩

/-- What does not touch the watch keeps every account of it. -/
theorem leads_onFst (x : Attempt σ γ) :
    Leads A A (liftM (x.onFst : Attempt (σ × Watch ℓ) γ) :
      Reporting Timeout (Attempt (σ × Watch ℓ)) γ) := by
  intro r s w a r' s' w' hA hrun
  rw [StateT.run_monadLift] at hrun
  obtain ⟨b, ⟨s₁, w₁⟩, hx, hb⟩ := Attempt.bind_eq_ok_iff.1 hrun
  obtain ⟨-, rfl⟩ := Attempt.onFst_eq_ok_iff.1 hx
  cases hb
  exact hA

/-- A comparison leads from its position to the next one. -/
theorem leads_inside {x : Reporting Timeout (Attempt (σ × Watch ℓ)) γ} (hc : c.Interior)
    (h : Leads (At limit (outer ++ [c]) (.start a.children.length b.children.length))
      (Over limit (outer ++ [c])) x) :
    Leads (At limit outer c) (Before limit outer c.next) (Watch.inside a b x) := by
  intro r s w o r' s' w' hat hrun
  rw [Watch.run_inside] at hrun
  cases hx : x.run r (s, w.enter a b) with
  | error e s₁ =>
    rw [hx] at hrun
    cases hrun
  | ok q s₁ =>
    rw [hx] at hrun
    cases hrun
    exact hat.leave hc (h r s _ _ _ _ _ (hat.enter hc) hx)

/-- A check leads to its position, or ends the search. -/
theorem ending_check (clock : Attempt σ Instant) (hp : p.Interior) :
    (ending σ ℓ (Over limit outer)).Rel (Before limit outer p) (fun _ => True) (At limit outer p)
      ((Differ.asking (.watched clock (some limit))).check p.solved
        ((p.rows + 1) * (p.columns + 1)))
      ((Differ.asking (.watched clock (some limit))).check p.solved
        ((p.rows + 1) * (p.columns + 1))) := by
  intro r s w q r' s' w' hbefore hrun
  rw [Differ.run_check_asking, Interrupt.run_watched] at hrun
  cases hclock : clock s with
  | error e s₁ =>
    rw [hclock] at hrun
    cases hrun
  | ok now s₁ =>
    rw [hclock] at hrun
    dsimp only at hrun
    cases hnow : now.reaches limit with
    | false =>
      rw [hnow] at hrun
      cases hrun
      exact ⟨trivial, hbefore.passed hp hnow⟩
    | true =>
      rw [hnow] at hrun
      cases hrun
      exact hbefore.struck hp hnow

end Watch

/-! ## Searches and matches -/

namespace Differ

open Watch

variable (D : Differ (Attempt σ) ℓ) (clock : Attempt σ Instant)

/-- A search keeps the account if its comparisons do. -/
theorem gridRule_ending {as bs : List (Tree ℓ)}
    (hcompare : ∀ a ∈ as, ∀ b ∈ bs, ∀ outer,
      Leads (At limit outer (.start a.children.length b.children.length)) (Over limit outer)
        (D.watchedMatch? (.watched clock (some limit)) a b)) (outer : List Frame) :
    GridRule (ending σ ℓ (Over limit outer)) (D.watchedPolicy (.watched clock (some limit)))
      (D.watchedPolicy (.watched clock (some limit))) D.settings.tieBreak
      (asking (.watched clock (some limit))) (asking (.watched clock (some limit))) as bs
      (fun _ _ => True) (fun _ _ _ => True)
      (fun as' bs' => Before limit outer
        (Frame.mk as.length bs.length as'.length bs'.length).next) where
  delete_eq := rfl
  insert_eq := rfl
  loss _ _ := ending_of_leads (fun _ => trivial) (leads_onFst _)
  gain _ _ := ending_of_leads (fun _ => trivial) (leads_onFst _)
  done := trivial
  delete _ _ _ := ending_except (fun _ h => h.nextRow) _
  insert _ _ _ := ending_except (fun _ h => h) _
  position := by
    intro a as' b bs' c c' lost gained both ha hb _ _ _ _ _ solved total hsolved htotal
    have hrow : as'.length + 1 ≤ as.length := ha.length_le
    have hcolumn : bs'.length + 1 ≤ bs.length := hb.length_le
    have hp : (Frame.mk as.length bs.length (as'.length + 1) (bs'.length + 1)).Interior :=
      ⟨Nat.succ_pos _, hrow, Nat.succ_pos _, hcolumn⟩
    have hnext : (Frame.mk as.length bs.length (a :: as').length bs'.length).next =
        Frame.mk as.length bs.length (as'.length + 1) (bs'.length + 1) :=
      Frame.next_of_ne (by simp only; omega)
    rw [hnext]
    subst hsolved htotal
    refine Tracking.bind _ (ending_check clock hp) fun _ _ => ?_
    let P := D.watchedPolicy (.watched clock (some limit))
    refine ((ending σ ℓ (Over limit outer)).comap _ _).cell (Q := fun _ => True)
      (K := fun _ _ => True) P P _ ?_ ?_ ?_ ?_ ?_
    · exact ending_except (fun _ h => h) _
    · exact ending_except (fun _ h => h) _
    · have hab := hcompare a (ha.subset List.mem_cons_self) b (hb.subset List.mem_cons_self)
      exact ending_of_leads (fun _ _ _ => trivial) (leads_inside hp (hab _))
    · exact fun _ _ => ending_of_leads (fun _ => trivial) (leads_onFst _)
    · exact fun _ _ _ _ => ending_except (fun _ h => h) _

/-- The report when a search has ended. A timeout takes the place of what has been reported inside
it. -/
def lastReport : Except Timeout γ → Option Timeout → Option Timeout
  | .ok _, r => r
  | .error t, _ => some t

/-- A search that returns is over. -/
theorem ending_searchScript {as bs : List (Tree ℓ)}
    (hcompare : ∀ a ∈ as, ∀ b ∈ bs, ∀ outer,
      Leads (At limit outer (.start a.children.length b.children.length)) (Over limit outer)
        (D.watchedMatch? (.watched clock (some limit)) a b))
    {result : Except Timeout (Script (Diff ℓ))} {r' : Option Timeout} {s s' : σ}
    (hat : At limit outer (.start as.length bs.length) (r, w))
    (hrun : ((D.onFst _).searchScript (.watched clock (some limit))
      (D.watchedCandidates (.watched clock (some limit)) as) bs).run.run r (s, w) =
        .ok (result, r') (s', w')) :
    Over limit outer (lastReport result r', w') := by
  rw [searchScript_watchedCandidates] at hrun
  have hbegin : Before limit outer (Frame.mk as.length bs.length 0 bs.length).next (r, w) :=
    hat.before (by rw [Frame.rows_next]; rfl) (by rw [Frame.columns_next]; rfl)
  have hend := (gridRule_ending D clock hcompare outer).search r s w result r' s' w' hbegin hrun
  cases result with
  | error t => exact hend
  | ok script => exact hend.2.over

/-- **Every match keeps the account.** -/
theorem leads_watchedMatch? (limit : Instant) (a b : Tree ℓ) (outer : List Frame) :
    Leads (At limit outer (.start a.children.length b.children.length)) (Over limit outer)
      (D.watchedMatch? (.watched clock (some limit)) a b) := by
  induction a using Tree.induct generalizing b outer with
  | step l cs ih =>
    intro r s w o r' s' w' hat hrun
    rw [watchedMatch?_node, run_matchNode] at hrun
    have hover : Over limit outer (r, w) := ⟨hat.events, fun hsorted => .inl (hat.calm hsorted)⟩
    cases hl : (D.onFst (Watch ℓ)).sameLabel l b.label with
    | false =>
      rw [hl] at hrun
      cases hrun
      exact hover
    | true =>
      rw [hl] at hrun
      cases r with
      | some t =>
        cases hrun
        exact hover
      | none =>
        dsimp only at hrun
        cases hsearch : ((D.onFst _).searchScript (.watched clock (some limit))
            (D.watchedCandidates (.watched clock (some limit)) cs) b.children).run.run none
            (s, w) with
        | error e s₁ =>
          rw [hsearch] at hrun
          cases hrun
        | ok q s₁ =>
          obtain ⟨result, r₁⟩ := q
          have hend :=
            D.ending_searchScript clock (fun a ha b _ outer => ih a ha b outer) hat hsearch
          rw [hsearch] at hrun
          cases result <;> cases hrun <;> exact hend

/-! ## Calls -/

section

variable {d : Duration} {start : Instant} {s s₁ s' : σ} {r : Option Timeout} {D clock}

theorem over_watchedMatch? {p : Except Timeout (Option (Diff ℓ))}
    (hrun : (liftM (D.watchedMatch? (.watched clock (some limit)) a b) :
      ExceptT Timeout (Reporting Timeout (Attempt (σ × Watch ℓ))) _).run.run none
        (s, .start a.children.length b.children.length) = .ok (p, r) (s', w')) :
    Over limit [] (lastReport p r, w') := by
  have hleads := ending_of_leads (E := Over limit []) (fun _ => trivial)
    (D.leads_watchedMatch? clock limit a b [])
  have hend := hleads none s _ p r s' w' (At.start _ _) hrun
  cases p with
  | error t => exact hend
  | ok o => exact hend.2

theorem over_watchedSearch {as bs : List (Tree ℓ)} {p : Except Timeout (Script (Diff ℓ))}
    (hrun : ((D.onFst _).searchScript (.watched clock (some limit))
      (D.watchedCandidates (.watched clock (some limit)) as) bs).run.run none
        (s, .start as.length bs.length) = .ok (p, r) (s', w')) :
    Over limit [] (lastReport p r, w') :=
  D.ending_searchScript clock (fun a _ b _ => D.leads_watchedMatch? clock limit a b) (At.start _ _)
    hrun

theorem run_watchedTreesWithin (hdeadline : D.settings.deadline = some d)
    (hclock : clock s = .ok start s₁) (hlimit : start.after d = .ok limit) (a b : Tree ℓ)
    (w : Watch ℓ) :
    (D.watchedTreesWithin clock a b).run (s, w) =
      (ended (fun o => o.getD (.edit (.replace a b))) <$>
        (liftM (D.watchedMatch? (.watched clock (some limit)) a b) :
          ExceptT Timeout (Reporting Timeout (Attempt (σ × Watch ℓ))) _).run.run none) (s₁, w) := by
  have hclock' : clock.onFst (s, w) = .ok start (s₁, w) := Attempt.onFst_eq_ok_iff.2 ⟨hclock, rfl⟩
  exact run_found hdeadline hclock' hlimit (fun limit => D.watchedMatch? (.watched clock limit) a b)
    fun o => o.getD (.edit (.replace a b))

theorem run_watchedSequencesWithin (hdeadline : D.settings.deadline = some d)
    (hclock : clock s = .ok start s₁) (hlimit : start.after d = .ok limit) (as bs : List (Tree ℓ))
    (w : Watch ℓ) :
    (D.watchedSequencesWithin clock as bs).run (s, w) =
      (ended Script.edits <$> ((D.onFst _).searchScript (.watched clock (some limit))
        (D.watchedCandidates (.watched clock (some limit)) as) bs).run.run none) (s₁, w) := by
  have hclock' : clock.onFst (s, w) = .ok start (s₁, w) := Attempt.onFst_eq_ok_iff.2 ⟨hclock, rfl⟩
  exact run_searched hdeadline hclock' hlimit (fun limit => (D.onFst _).searchScript
    (.watched clock limit) (D.watchedCandidates (.watched clock limit) as) bs)
    (by rintro ⟨_ | _, _ | _⟩ s' <;> rfl)

end

end Differ

end TreeDiff
