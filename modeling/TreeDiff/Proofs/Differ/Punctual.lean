import TreeDiff.Proofs.Differ.Account
import TreeDiff.Proofs.Differ.Deadline

/-!
# Calls that run out of time

The two accounts of a call with a deadline are put together here. One compares it with the call
without a deadline, and knows of the clock only what it has shown. The other one knows at which
positions the clock was read.

* `Watch.late_readings_iff`: a reading is late if and only if a check is.
* `Differ.Punctual`, `Differ.within_punctual`: a call with a deadline returns the answer of the call
  without one, or a timeout if and only if a check came too late.
-/

namespace TreeDiff

variable {σ υ γ γ' ℓ : Type}

theorem Watch.late_readings_iff {limit : Instant} {w : Watch ℓ} :
    limit.Late w.readings ↔ ∃ e ∈ w.events, e.isLate limit = true := by
  simp only [Instant.Late, Watch.readings, Event.isLate, List.mem_toArray, List.mem_filterMap,
    Option.any_eq_true]
  constructor
  · rintro ⟨now, ⟨e, he, hnow⟩, hlate⟩
    exact ⟨e, he, now, hnow, hlate⟩
  · rintro ⟨e, he, now, hnow, hlate⟩
    exact ⟨now, ⟨e, he, hnow⟩, hlate⟩

namespace Differ

open Watch

/-- A call with a deadline does not fault from the state `s`, and returns an answer only if the call
without a deadline returns the same, from every state that looks like `s`. After the start it has
read the clock in the checks that are seen when it is watched, from the watch `w`. All of them are
made at positions with two heads, each comparison starts directly after one in time, and the call
returns a timeout if and only if one of them was late. -/
def Punctual (view : σ → υ) (start limit : Instant) (s : σ) (w : Watch ℓ)
    (call : ExceptT Timeout (Attempt σ) γ)
    (logged : ExceptT Timeout (Attempt (σ × Array Instant)) γ)
    (watched : ExceptT Timeout (Attempt (σ × Watch ℓ)) γ) (free : Attempt σ γ) : Prop :=
  ∃ result s' w', call.run s = .ok result s' ∧
    logged.run (s, #[]) = .ok result (s', #[start] ++ w'.readings) ∧
    watched.run (s, w) = .ok result (s', w') ∧ Event.Checked limit w'.events ∧
    (∀ a, result = .ok a → ∀ s₂, view s = view s₂ → ∃ s₂', free s₂ = .ok a s₂') ∧
    ((∃ t, result = .error t) ↔ ∃ e ∈ w'.events, e.isLate limit = true)

section

variable {D : Differ (Attempt σ) ℓ} {clock : Attempt σ Instant} {view : σ → υ}
  {start limit : Instant} {s s₁ : σ} {w : Watch ℓ}

/-- What the simulations say of the end of a run from the beginning. -/
theorem exists_checks
    {x : ExceptT Timeout (Reporting Timeout (Attempt (σ × Watch ℓ))) γ}
    {y : ExceptT Timeout (Reporting Timeout (Attempt (σ × Array Instant))) γ}
    {z : ExceptT Timeout (Reporting Timeout (Attempt σ)) γ}
    {free : ExceptT Empty (Reporting Empty (Attempt σ)) γ}
    (hwatch : ((logging σ ℓ #[start]).exceptT Timeout).Rel (fun _ => True) x y)
    (hlog : (dropLog σ).Rel (fun _ => True) y z)
    (hfree : (dropDeadline view limit).Rel (fun _ => True) y free) (hw : w.events = [])
    (hfault : ∀ s', z.run.run none s ≠ .error .costOverflow s') :
    ∃ p s' w', z.run.run none s = .ok p s' ∧
      y.run.run none (s, #[start]) = .ok p (s', #[start] ++ w'.readings) ∧
      x.run.run none (s, w) = .ok p (s', w') ∧
      (∀ a, p = (.ok a, none) → ∀ s₂, view s = view s₂ →
        ∃ s₂', free.run.run none s₂ = .ok (.ok a, none) s₂') ∧
      ((∃ t, p.1 = .error t) ∨ p.2.isSome = true ↔ limit.Late w'.readings) := by
  have hforget := hlog none s #[start]
  have houtcome := hfree none (s, #[start])
  cases hrun : y.run.run none (s, #[start]) with
  | error e s' =>
    rw [hrun] at houtcome hforget
    obtain rfl : e = .costOverflow := houtcome
    exact absurd hforget (hfault s'.1)
  | ok p s' =>
    obtain ⟨s', log⟩ := s'
    rw [hrun] at houtcome hforget
    obtain ⟨w', hx, hy⟩ := exists_watched #[start] hwatch hlog hforget.2 hw
    cases hrun.symm.trans hy
    obtain ⟨checks, hchecks, hlate⟩ := houtcome.checks
    obtain rfl : w'.readings = checks := (Array.append_right_inj _).1 hchecks
    refine ⟨p, _, w', hforget.2, rfl, hx, fun a hp s₂ hs₂ => ?_, hlate rfl⟩
    obtain ⟨s₂', hfree, -⟩ := houtcome.free rfl a hp s₂ hs₂
    exact ⟨s₂', hfree⟩

/-- A call is punctual if its search is. -/
theorem punctual_of_rel {call : ExceptT Timeout (Attempt σ) γ'}
    {logged : ExceptT Timeout (Attempt (σ × Array Instant)) γ'}
    {watched : ExceptT Timeout (Attempt (σ × Watch ℓ)) γ'} {free : Attempt σ γ'} {f : γ → γ'}
    {x : ExceptT Timeout (Reporting Timeout (Attempt (σ × Watch ℓ))) γ}
    {y : ExceptT Timeout (Reporting Timeout (Attempt (σ × Array Instant))) γ}
    {z : ExceptT Timeout (Reporting Timeout (Attempt σ)) γ}
    {u : ExceptT Empty (Reporting Empty (Attempt σ)) γ}
    (hwatch : ((logging σ ℓ #[start]).exceptT Timeout).Rel (fun _ => True) x y)
    (hlog : (dropLog σ).Rel (fun _ => True) y z)
    (hfree : (dropDeadline view limit).Rel (fun _ => True) y u) (hw : w.events = [])
    (hover : ∀ p r s' w', x.run.run none (s₁, w) = .ok (p, r) (s', w') →
      Over limit [] (lastReport p r, w')) (hview : view s₁ = view s)
    (hcall : call.run s = (ended f <$> z.run.run none) s₁)
    (hlogged : logged.run (s, #[]) = (ended f <$> y.run.run none) (s₁, #[start]))
    (hwatched : watched.run (s, w) = (ended f <$> x.run.run none) (s₁, w))
    (hfreecall : ∀ a s₂ s₂', u.run.run none s₂ = .ok (.ok a, none) s₂' →
      free s₂ = .ok (f a) s₂')
    (hfault : ∀ s', call.run s ≠ .error .costOverflow s') :
    Punctual view start limit s w call logged watched free := by
  simp only [Functor.map, EStateM.map] at hcall hlogged hwatched
  have hfault' : ∀ s', z.run.run none s₁ ≠ .error .costOverflow s' := by
    intro s' hrun
    rw [hrun] at hcall
    exact hfault s' hcall
  obtain ⟨p, s', w', hz, hy, hx, hu, hlate⟩ := exists_checks hwatch hlog hfree hw hfault'
  rw [hz] at hcall
  rw [hy] at hlogged
  rw [hx] at hwatched
  have hevents := (hover p.1 p.2 s' w' hx).events
  refine ⟨ended f p, s', w', hcall, hlogged, hwatched, hevents, fun a ha s₂ hs₂ => ?_, ?_⟩
  · obtain ⟨b, hp, rfl⟩ := ended_eq_ok_iff.1 ha
    obtain ⟨s₂', hu⟩ := hu b hp s₂ (hview.trans hs₂)
    exact ⟨s₂', hfreecall b s₂ s₂' hu⟩
  · rw [ended_eq_error_iff, hlate, late_readings_iff]

/-- **A search that runs out of time never leaves its mark on a result.** A call with a deadline
returns the answer of the call without one, or it returns a timeout, and the latter if and only if
a check at a position of some search, at whatever depth, has read the clock too late. -/
theorem within_punctual (h : D.ClockFree clock view) {d : Duration}
    (hdeadline : D.settings.deadline = some d) (hclock : clock s = .ok start s₁)
    (hlimit : start.after d = .ok limit) :
    (∀ a b, (∀ s', (D.diffTreesWithin clock a b).run s ≠ .error .costOverflow s') →
      Punctual view start limit s (.start a.children.length b.children.length)
        (D.diffTreesWithin clock a b) ((D.onFst _).diffTreesWithin clock.logged a b)
        (D.watchedTreesWithin clock a b) (D.diffTrees a b)) ∧
      ∀ as bs, (∀ s', (D.diffSequencesWithin clock as bs).run s ≠ .error .costOverflow s') →
        Punctual view start limit s (.start as.length bs.length)
          (D.diffSequencesWithin clock as bs) ((D.onFst _).diffSequencesWithin clock.logged as bs)
          (D.watchedSequencesWithin clock as bs) (D.diffSequences as bs) := by
  have hview : view s₁ = view s := by
    obtain ⟨now, s', hclock', hview⟩ := h.clock_ok s
    cases hclock.symm.trans hclock'
    exact hview
  have hclock' : clock.logged (s, #[]) = .ok start (s₁, #[start]) := by
    rw [Attempt.logged_apply, hclock]
    rfl
  have hlog := D.related_onFst clock limit
  have hfree := related_never h limit
  have hdeadline' : (D.onFst (Array Instant)).settings.deadline = some d := hdeadline
  constructor
  · intro a b hfault
    have hwatch := (logging σ ℓ #[start]).exceptT_liftM (ε := Timeout)
      (D.logging_watchedMatch? clock limit #[start] a b)
    exact punctual_of_rel hwatch (hlog.match? a b) (hfree.match? a b) rfl
      (fun _ _ _ _ => over_watchedMatch?) hview (run_diffTreesWithin hdeadline hclock hlimit)
      (run_diffTreesWithin hdeadline' hclock' hlimit)
      (run_watchedTreesWithin hdeadline hclock hlimit a b _) (fun _ _ _ => run_diffTrees) hfault
  · intro as bs hfault
    exact punctual_of_rel (D.logging_watchedSearch clock limit #[start] as bs)
      (hlog.searchScript as bs) (hfree.searchScript as bs) rfl
      (fun _ _ _ _ => over_watchedSearch) hview
      (run_diffSequencesWithin hdeadline hclock hlimit)
      (run_diffSequencesWithin hdeadline' hclock' hlimit)
      (run_watchedSequencesWithin hdeadline hclock hlimit as bs _)
      (fun _ _ _ => run_diffSequences) hfault

end

/-- In the first call the time has run out when the only children of the roots are to be compared.
The second one meets nothing that takes time. -/
theorem within_punctual_hasty :
    (Punctual (fun _ => ()) ⟨0⟩ ⟨1000⟩ ⟨0⟩ (.start 1 1)
        (hasty.diffTreesWithin get (.node "root" [.leaf "slow"]) (.node "root" [.leaf "leaf"]))
        ((hasty.onFst _).diffTreesWithin (Attempt.logged get) (.node "root" [.leaf "slow"])
          (.node "root" [.leaf "leaf"]))
        (hasty.watchedTreesWithin get (.node "root" [.leaf "slow"]) (.node "root" [.leaf "leaf"]))
        (hasty.diffTrees (.node "root" [.leaf "slow"]) (.node "root" [.leaf "leaf"])) ∧
      (hasty.watchedTreesWithin get (.node "root" [.leaf "slow"])
          (.node "root" [.leaf "leaf"])).run (⟨0⟩, .start 1 1) =
        .ok (.error ⟨3, 4⟩) (⟨2000⟩, ⟨[], ⟨1, 1, 1, 1⟩, [.check [] ⟨1, 1, 1, 1⟩ ⟨2000⟩]⟩)) ∧
      Punctual (fun _ => ()) ⟨0⟩ ⟨1000⟩ ⟨0⟩ (.start 1 2)
        (hasty.diffSequencesWithin get [.leaf "leaf"] [.leaf "leaf", .leaf "slow"])
        ((hasty.onFst _).diffSequencesWithin (Attempt.logged get) [.leaf "leaf"]
          [.leaf "leaf", .leaf "slow"])
        (hasty.watchedSequencesWithin get [.leaf "leaf"] [.leaf "leaf", .leaf "slow"])
        (hasty.diffSequences [.leaf "leaf"] [.leaf "leaf", .leaf "slow"]) ∧
      (hasty.watchedSequencesWithin get [.leaf "leaf"] [.leaf "leaf", .leaf "slow"]).run
          (⟨0⟩, .start 1 2) =
        .ok (.ok [.merge "leaf" [], .edit (.insert (.leaf "slow"))])
          (⟨0⟩, ⟨[], ⟨1, 2, 1, 2⟩,
            [.check [] ⟨1, 2, 1, 1⟩ ⟨0⟩, .compare (.leaf "leaf") (.leaf "slow"),
              .check [] ⟨1, 2, 1, 2⟩ ⟨0⟩, .compare (.leaf "leaf") (.leaf "leaf")]⟩) := by
  have hclock : (get : Attempt Instant Instant) ⟨0⟩ = .ok ⟨0⟩ ⟨0⟩ := rfl
  have hlimit : (Instant.mk 0).after ⟨1000⟩ = .ok ⟨1000⟩ := rfl
  refine ⟨⟨(within_punctual clockFree_hasty rfl hclock hlimit).1 _ _ nofun, ?_⟩,
    (within_punctual clockFree_hasty rfl hclock hlimit).2 _ _ nofun, ?_⟩
  · decide +kernel
  · decide +kernel

end Differ

end TreeDiff
