import TreeDiff.Proofs.Differ.Account
import TreeDiff.Proofs.Differ.Deadline

/-!
# Which timeout is reported

When a check finds the limit reached, every search that is active then, and is not at its last
position, reports in its turn, the outermost one last.

* `Differ.Reports`: the report of a call is the one that its active searches leave.
* `Differ.within_reports`: this holds for all calls that return.
-/

namespace TreeDiff

variable {σ γ γ' ℓ : Type}

namespace Differ

open Watch

/-- A call from the state `s` returns, and it does so if it is watched, from the watch `w`. If the
clock never goes back and there is a first check that finds the limit reached, then no comparison
starts after it, and the call returns the report of the searches that are active at this check. They
all stand at positions with two heads. -/
def Reports (limit : Instant) (call : ExceptT Timeout (Attempt σ) γ)
    (watched : ExceptT Timeout (Attempt (σ × Watch ℓ)) γ) (s : σ) (w : Watch ℓ) : Prop :=
  ∃ result s' w', call.run s = .ok result s' ∧ watched.run (s, w) = .ok result (s', w') ∧
    (Event.InOrder w'.events → ∀ before enclosing current now after,
      w'.events = before ++ .check enclosing current now :: after →
      (∀ e ∈ before, e.isLate limit = false) → now.reaches limit = true →
      (∀ e ∈ after, e.isCompare = false) ∧ (∀ c ∈ current :: enclosing, c.Interior) ∧
        result = .error (.reported enclosing current))

section

variable {D : Differ (Attempt σ) ℓ} {clock : Attempt σ Instant} {d : Duration}
  {start limit : Instant} {s s₁ : σ} {w : Watch ℓ}

/-- At the end of the outermost search, the report is that of the first late check. -/
theorem ended_of_over {p : Except Timeout γ} {r : Option Timeout} (f : γ → γ')
    (h : Over limit [] (lastReport p r, w)) (hsorted : Event.InOrder w.events)
    {before after : List (Event ℓ)} {enclosing : List Frame} {current : Frame} {now : Instant}
    (hevents : w.events = before ++ .check enclosing current now :: after)
    (hbefore : ∀ e ∈ before, e.isLate limit = false) (hnow : now.reaches limit = true) :
    (∀ e ∈ after, e.isCompare = false) ∧ (∀ c ∈ current :: enclosing, c.Interior) ∧
      ended f (p, r) = .error (.reported enclosing current) := by
  have hfrom : Event.fromLate limit w.events = .check enclosing current now :: after := by
    rw [hevents, Event.fromLate_append_of_nil (Event.fromLate_eq_nil_iff.2 hbefore),
      Event.fromLate_check_of_late hnow]
  have hinterior : ∀ c ∈ current :: enclosing, c.Interior :=
    h.events.interior (by rw [hevents]; exact List.mem_append_right _ List.mem_cons_self)
  rcases h.known hsorted with ⟨-, hnone⟩ | hstruck
  · rw [hfrom] at hnone
    cases hnone
  · obtain ⟨inner, current', first, after', hreport, hlate, hafter⟩ := hstruck
    rw [hfrom] at hlate
    cases hlate
    refine ⟨hafter, hinterior, ?_⟩
    cases p with
    | error t =>
      cases hreport
      rfl
    | ok a =>
      obtain rfl : r = some (.reported inner current) := hreport
      rfl

/-- A call reports what its search does. -/
theorem reports_of_rel {call : ExceptT Timeout (Attempt σ) γ'}
    {watched : ExceptT Timeout (Attempt (σ × Watch ℓ)) γ'} {f : γ → γ'}
    {x : ExceptT Timeout (Reporting Timeout (Attempt (σ × Watch ℓ))) γ}
    {y : ExceptT Timeout (Reporting Timeout (Attempt (σ × Array Instant))) γ}
    {z : ExceptT Timeout (Reporting Timeout (Attempt σ)) γ}
    (hwatch : ((logging σ ℓ #[]).exceptT Timeout).Rel (fun _ => True) x y)
    (hlog : (dropLog σ).Rel (fun _ => True) y z) (hw : w.events = [])
    (hover : ∀ p r s' w', x.run.run none (s₁, w) = .ok (p, r) (s', w') →
      Over limit [] (lastReport p r, w'))
    (hcall : call.run s = (ended f <$> z.run.run none) s₁)
    (hwatched : watched.run (s, w) = (ended f <$> x.run.run none) (s₁, w))
    (hfault : ∀ e s', call.run s ≠ .error e s') : Reports limit call watched s w := by
  simp only [Functor.map, EStateM.map] at hcall hwatched
  cases hz : z.run.run none s₁ with
  | error e s' =>
    rw [hz] at hcall
    exact absurd hcall (hfault e s')
  | ok q s' =>
    obtain ⟨p, r⟩ := q
    obtain ⟨w', hx, -⟩ := exists_watched #[] hwatch hlog hz hw
    rw [hx] at hwatched
    rw [hz] at hcall
    refine ⟨ended f (p, r), s', w', hcall, hwatched, ?_⟩
    intro hsorted before enclosing current now after
    exact ended_of_over f (hover p r s' w' hx) hsorted

/-- **The timeout that is reported.** Take the first check that finds the limit reached, in whatever
search, and the searches that are active then. No comparison starts after it, and of these searches
the outermost one reports that is not at its last position, or else the one that has checked. -/
theorem within_reports (hdeadline : D.settings.deadline = some d)
    (hclock : clock s = .ok start s₁) (hlimit : start.after d = .ok limit) :
    (∀ a b, (∀ e s', (D.diffTreesWithin clock a b).run s ≠ .error e s') →
      Reports limit (D.diffTreesWithin clock a b) (D.watchedTreesWithin clock a b) s
        (.start a.children.length b.children.length)) ∧
      ∀ as bs, (∀ e s', (D.diffSequencesWithin clock as bs).run s ≠ .error e s') →
        Reports limit (D.diffSequencesWithin clock as bs) (D.watchedSequencesWithin clock as bs) s
          (.start as.length bs.length) := by
  have hlog := D.related_onFst clock limit
  constructor
  · intro a b hfault
    have hwatch := (logging σ ℓ #[]).exceptT_liftM (ε := Timeout)
      (D.logging_watchedMatch? clock limit #[] a b)
    exact reports_of_rel hwatch (hlog.match? a b) rfl (fun _ _ _ _ => over_watchedMatch?)
      (run_diffTreesWithin hdeadline hclock hlimit)
      (run_watchedTreesWithin hdeadline hclock hlimit a b _) hfault
  · intro as bs hfault
    exact reports_of_rel (D.logging_watchedSearch clock limit #[] as bs) (hlog.searchScript as bs)
      rfl (fun _ _ _ _ => over_watchedSearch) (run_diffSequencesWithin hdeadline hclock hlimit)
      (run_watchedSequencesWithin hdeadline hclock hlimit as bs _) hfault

end

/-- In both calls the time runs out in the search of the only children of two nodes. In the first
one, the search of the children of the roots around it has a position left to check. In the second
one, the search around it is at its last position. -/
theorem within_reports_hasty :
    (Reports ⟨1000⟩
        (hasty.diffTreesWithin get (.node "root" [.leaf "y", .node "x" [.leaf "slow"]])
          (.node "root" [.leaf "y", .node "x" [.leaf "leaf"]]))
        (hasty.watchedTreesWithin get (.node "root" [.leaf "y", .node "x" [.leaf "slow"]])
          (.node "root" [.leaf "y", .node "x" [.leaf "leaf"]])) ⟨0⟩ (.start 2 2) ∧
      (hasty.watchedTreesWithin get (.node "root" [.leaf "y", .node "x" [.leaf "slow"]])
          (.node "root" [.leaf "y", .node "x" [.leaf "leaf"]])).run (⟨0⟩, .start 2 2) =
        .ok (.error (Frame.mk 2 2 1 2).timeout) (⟨2000⟩, ⟨[], ⟨2, 2, 1, 2⟩,
          [.check [] ⟨2, 2, 1, 1⟩ ⟨0⟩,
            .compare (.node "x" [.leaf "slow"]) (.node "x" [.leaf "leaf"]),
            .check [⟨2, 2, 1, 1⟩] ⟨1, 1, 1, 1⟩ ⟨2000⟩,
            .check [] ⟨2, 2, 1, 2⟩ ⟨2000⟩]⟩)) ∧
      Reports ⟨1000⟩
        (hasty.diffSequencesWithin get [.node "x" [.leaf "slow"], .leaf "y"]
          [.node "x" [.leaf "leaf"], .leaf "y"])
        (hasty.watchedSequencesWithin get [.node "x" [.leaf "slow"], .leaf "y"]
          [.node "x" [.leaf "leaf"], .leaf "y"]) ⟨0⟩ (.start 2 2) ∧
      (hasty.watchedSequencesWithin get [.node "x" [.leaf "slow"], .leaf "y"]
          [.node "x" [.leaf "leaf"], .leaf "y"]).run (⟨0⟩, .start 2 2) =
        .ok (.error (Frame.mk 1 1 1 1).timeout) (⟨2000⟩, ⟨[], ⟨2, 2, 2, 2⟩,
          [.check [] ⟨2, 2, 1, 1⟩ ⟨0⟩, .compare (.leaf "y") (.leaf "y"),
            .check [] ⟨2, 2, 1, 2⟩ ⟨0⟩, .compare (.leaf "y") (.node "x" [.leaf "leaf"]),
            .check [] ⟨2, 2, 2, 1⟩ ⟨0⟩, .compare (.node "x" [.leaf "slow"]) (.leaf "y"),
            .check [] ⟨2, 2, 2, 2⟩ ⟨0⟩,
            .compare (.node "x" [.leaf "slow"]) (.node "x" [.leaf "leaf"]),
            .check [⟨2, 2, 2, 2⟩] ⟨1, 1, 1, 1⟩ ⟨2000⟩]⟩) := by
  have hclock : (get : Attempt Instant Instant) ⟨0⟩ = .ok ⟨0⟩ ⟨0⟩ := rfl
  have hlimit : (Instant.mk 0).after ⟨1000⟩ = .ok ⟨1000⟩ := rfl
  refine ⟨⟨(within_reports rfl hclock hlimit).1 _ _ nofun, ?_⟩,
    (within_reports rfl hclock hlimit).2 _ _ nofun, ?_⟩
  · decide +kernel
  · decide +kernel

end Differ

end TreeDiff
