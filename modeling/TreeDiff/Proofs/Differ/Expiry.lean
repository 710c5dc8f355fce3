import Mathlib.Data.List.TakeWhile
import TreeDiff.Differ.Watch

/-!
# What a search knows of the time

A search that is watched stands inside other ones. As long as no check has been late it knows that
there is no report. Once a check inside it has been late, it knows which report is due, and that
its own next check will be late as well, on a clock that never goes back.

* `Event.fromLate`: the events of a call from the first late check on.
* `Event.Checked.interior`: the positions of the checks of a call.
* `Watch.Calm`, `Watch.Struck`: what is known while no check has been late, and afterwards.
* `Watch.At`, `Watch.Before`, `Watch.Over`: a search at a position, between two positions and at its
  end.
* `Watch.At.enter`, `Watch.At.leave`, `Watch.Before.passed`, `Watch.Before.struck`,
  `Watch.Before.nextRow`, `Watch.Before.over`: what each step makes of this.
-/

namespace TreeDiff

variable {ℓ : Type}

/-! ## The first late check -/

namespace Event

variable {limit : Instant} {events events' : List (Event ℓ)} {enclosing : List Frame}
  {current : Frame} {now : Instant}

/-- The events from the first late check on. -/
def fromLate (limit : Instant) (events : List (Event ℓ)) : List (Event ℓ) :=
  events.dropWhile (! ·.isLate limit)

theorem fromLate_eq_nil_iff :
    fromLate limit events = [] ↔ ∀ e ∈ events, e.isLate limit = false := by
  rw [fromLate, List.dropWhile_eq_nil_iff]
  simp

theorem fromLate_append_of_nil (h : fromLate limit events = []) :
    fromLate limit (events ++ events') = fromLate limit events' := by
  unfold fromLate at h ⊢
  rw [List.dropWhile_append, h]
  rfl

theorem fromLate_append_of_cons {e : Event ℓ} {after : List (Event ℓ)}
    (h : fromLate limit events = e :: after) :
    fromLate limit (events ++ events') = e :: (after ++ events') := by
  unfold fromLate at h ⊢
  rw [List.dropWhile_append, h]
  rfl

theorem fromLate_check_of_late (h : now.reaches limit = true) (after : List (Event ℓ)) :
    fromLate limit (.check enclosing current now :: after) =
      .check enclosing current now :: after :=
  List.dropWhile_cons_of_neg (by simpa [isLate, reading?] using h)

theorem fromLate_check_of_not_late (h : now.reaches limit = false) :
    fromLate limit [(.check enclosing current now : Event ℓ)] = [] := by
  rw [fromLate_eq_nil_iff]
  simpa [isLate, reading?] using h

theorem fromLate_compare (a b : Tree ℓ) : fromLate limit [.compare a b] = [] := by
  rw [fromLate_eq_nil_iff]
  simp [isLate, reading?]

theorem InOrder.of_append (h : InOrder (events ++ events')) : InOrder events := by
  unfold InOrder at h ⊢
  rw [List.filterMap_append, List.pairwise_append] at h
  exact h.1

theorem inOrder_append_compare {a b : Tree ℓ} :
    InOrder (events ++ [.compare a b]) ↔ InOrder events := by
  have hnone : [(.compare a b : Event ℓ)].filterMap reading? = [] := rfl
  unfold InOrder
  rw [List.filterMap_append, hnone, List.append_nil]

theorem late_of_fromLate {e : Event ℓ} {after : List (Event ℓ)}
    (h : fromLate limit events = e :: after) : e ∈ events ∧ e.isLate limit = true := by
  unfold fromLate at h
  have hsuffix := List.dropWhile_suffix (l := events) fun e : Event ℓ => !e.isLate limit
  have hhead := List.head?_dropWhile_not (fun e : Event ℓ => !e.isLate limit) events
  rw [h] at hsuffix hhead
  exact ⟨hsuffix.subset List.mem_cons_self, by simpa using hhead⟩

/-- On a clock that never goes back, a check after a late one is late. -/
theorem InOrder.reaches {e : Event ℓ} {after : List (Event ℓ)}
    (h : InOrder (events ++ [.check enclosing current now]))
    (hlate : fromLate limit events = e :: after) : now.reaches limit = true := by
  obtain ⟨hmem, he⟩ := late_of_fromLate hlate
  obtain ⟨first, hreading, hfirst⟩ : ∃ first, e.reading? = some first ∧
      first.reaches limit = true := by
    simpa [isLate, Option.any_eq_true] using he
  have hnow : [(.check enclosing current now : Event ℓ)].filterMap reading? = [now] := rfl
  unfold InOrder at h
  rw [List.filterMap_append, hnow, List.pairwise_append] at h
  have hfirst' : first ∈ events.filterMap reading? := List.mem_filterMap.2 ⟨e, hmem, hreading⟩
  have hle : first.nanoseconds ≤ now.nanoseconds := h.2.2 first hfirst' now List.mem_cons_self
  simp only [Instant.reaches, decide_eq_true_eq] at hfirst ⊢
  omega

/-- The searches that are active at a check all stand at positions with two heads. -/
theorem Checked.interior (h : Checked limit events) (hmem : .check enclosing current now ∈ events) :
    ∀ c ∈ current :: enclosing, c.Interior := by
  induction h with
  | nil => cases hmem
  | check _ hinterior ih =>
    obtain hmem | hmem := List.mem_append.1 hmem
    · exact ih hmem
    · cases List.mem_singleton.1 hmem
      exact hinterior
  | compare _ _ ih =>
    obtain hmem | hmem := List.mem_append.1 hmem
    · exact ih hmem
    · cases List.mem_singleton.1 hmem

end Event

/-! ## Positions -/

namespace Watch

section

variable (limit : Instant) (outer : List Frame)

/-- No check has been late so far, and there is no report. -/
def Calm (k : Option Timeout × Watch ℓ) : Prop :=
  k.1 = none ∧ Event.fromLate limit k.2.events = []

/-- A check inside the searches `outer` was the first late one. Since then no comparison has
started, and the report is the one that is due inside these searches. -/
def Struck (k : Option Timeout × Watch ℓ) : Prop :=
  ∃ inner current now after, k.1 = some (.reported inner current) ∧
    Event.fromLate limit k.2.events = .check (outer ++ inner) current now :: after ∧
    ∀ e ∈ after, e.isCompare = false

/-- The search stands at `c`, inside the searches `outer`, and no check has been late. If there are
two heads at `c`, they have just been checked in time. -/
structure At (c : Frame) (k : Option Timeout × Watch ℓ) : Prop where
  enclosing : k.2.enclosing = outer
  current : k.2.current = c
  interior : ∀ c' ∈ outer, c'.Interior
  events : Event.Checked limit k.2.events
  inTime : c.Interior → Event.EndsInTime limit k.2.events
  calm : Event.InOrder k.2.events → Calm limit k

/-- The search goes to `p`, inside the searches `outer`. No check has been late, or one of those
inside the comparison at the last position was. -/
structure Before (p : Frame) (k : Option Timeout × Watch ℓ) : Prop where
  enclosing : k.2.enclosing = outer
  rows : k.2.current.rows = p.rows
  columns : k.2.current.columns = p.columns
  interior : ∀ c' ∈ outer, c'.Interior
  events : Event.Checked limit k.2.events
  known : Event.InOrder k.2.events →
    Calm limit k ∨ ∃ c, c.Interior ∧ c.next = p ∧ Struck limit (outer ++ [c]) k

/-- The search is over, inside the searches `outer`. No check has been late, or one of its own or of
those inside it was. -/
structure Over (k : Option Timeout × Watch ℓ) : Prop where
  events : Event.Checked limit k.2.events
  known : Event.InOrder k.2.events → Calm limit k ∨ Struck limit outer k

end

variable {limit : Instant} {outer : List Frame} {c p : Frame} {r : Option Timeout} {w w' : Watch ℓ}
  {now : Instant} {a b : Tree ℓ}

theorem At.before (h : At limit outer c (r, w)) (hrows : c.rows = p.rows)
    (hcolumns : c.columns = p.columns) : Before limit outer p (r, w) where
  enclosing := h.enclosing
  rows := by rw [h.current, hrows]
  columns := by rw [h.current, hcolumns]
  interior := h.interior
  events := h.events
  known hsorted := .inl (h.calm hsorted)

/-- Nothing has happened yet. -/
theorem At.start (rows columns : Nat) :
    At limit [] (.start rows columns) (none, (Watch.start rows columns : Watch ℓ)) where
  enclosing := rfl
  current := rfl
  interior := nofun
  events := .nil
  inTime hc := absurd hc.row_pos (Nat.lt_irrefl 0)
  calm _ := ⟨rfl, rfl⟩

/-- A comparison starts. -/
theorem At.enter (h : At limit outer c (r, w)) (hc : c.Interior) :
    At limit (outer ++ [c]) (.start a.children.length b.children.length) (r, w.enter a b) where
  enclosing := by
    show w.enclosing ++ [w.current] = _
    rw [h.enclosing, h.current]
  current := rfl
  interior := by
    simpa only [List.forall_mem_append, List.forall_mem_singleton] using ⟨h.interior, hc⟩
  events := .compare h.events (h.inTime hc)
  inTime hstart := absurd hstart.row_pos (Nat.lt_irrefl 0)
  calm hsorted := by
    obtain ⟨hreport, hlate⟩ := h.calm (Event.inOrder_append_compare.1 hsorted)
    refine ⟨hreport, ?_⟩
    show Event.fromLate limit (w.events ++ [.compare a b]) = []
    rw [Event.fromLate_append_of_nil hlate, Event.fromLate_compare]

/-- A comparison ends. -/
theorem At.leave {r' : Option Timeout} (h : At limit outer c (r, w)) (hc : c.Interior)
    (hover : Over limit (outer ++ [c]) (r', w')) : Before limit outer c.next (r', w'.leave w) where
  enclosing := h.enclosing
  rows := by
    show w.current.rows = _
    rw [h.current, Frame.rows_next]
  columns := by
    show w.current.columns = _
    rw [h.current, Frame.columns_next]
  interior := h.interior
  events := hover.events
  known hsorted := by
    rcases hover.known hsorted with hcalm | hstruck
    · exact .inl hcalm
    · exact .inr ⟨c, hc, rfl, hstruck⟩

theorem Before.events_checked (h : Before limit outer p (r, w)) (hp : p.Interior) (now : Instant) :
    ((w.moveTo p.solved).checked now).events = w.events ++ [.check outer p now] := by
  have hcurrent : (w.moveTo p.solved).current = p := hp.moveTo_solved h.rows h.columns
  have henclosing : (w.moveTo p.solved).enclosing = outer := h.enclosing
  unfold checked
  rw [hcurrent, henclosing]
  rfl

/-- A check, in time or late. -/
theorem Before.check (h : Before limit outer p (r, w)) (hp : p.Interior) (now : Instant) :
    Event.Checked limit ((w.moveTo p.solved).checked now).events := by
  rw [h.events_checked hp]
  exact .check h.events (List.forall_mem_cons.2 ⟨hp, h.interior⟩)

/-- A check in time. -/
theorem Before.passed (h : Before limit outer p (r, w)) (hp : p.Interior)
    (hnow : now.reaches limit = false) :
    At limit outer p (r, (w.moveTo p.solved).checked now) where
  enclosing := h.enclosing
  current := hp.moveTo_solved h.rows h.columns
  interior := h.interior
  events := h.check hp now
  inTime _ := ⟨_, _, now, List.getLast?_concat, hnow⟩
  calm hsorted := by
    rcases h.known (Event.InOrder.of_append hsorted) with hcalm | ⟨c, -, -, hstruck⟩
    · obtain ⟨hreport, hlate⟩ := hcalm
      refine ⟨hreport, ?_⟩
      rw [h.events_checked hp, Event.fromLate_append_of_nil hlate,
        Event.fromLate_check_of_not_late hnow]
    · -- the clock has not gone back behind the first late check
      obtain ⟨inner, current, first, after, -, hlate, -⟩ := hstruck
      have hreaches := Event.InOrder.reaches hsorted hlate
      rw [hnow] at hreaches
      cases hreaches

/-- A late check. The search reports its position, whether it is the first one to do so or not. -/
theorem Before.struck (h : Before limit outer p (r, w)) (hp : p.Interior)
    (hnow : now.reaches limit = true) :
    Over limit outer (some p.timeout, (w.moveTo p.solved).checked now) where
  events := h.check hp now
  known hsorted := by
    right
    rcases h.known (Event.InOrder.of_append hsorted) with hcalm | ⟨c, hc, rfl, hstruck⟩
    · refine ⟨[], p, now, [], rfl, ?_, nofun⟩
      rw [h.events_checked hp, Event.fromLate_append_of_nil hcalm.2,
        Event.fromLate_check_of_late hnow, List.append_nil]
    · obtain ⟨inner, current, first, after, -, hlate, hafter⟩ := hstruck
      refine ⟨c :: inner, current, first, after ++ [.check outer c.next now], ?_, ?_, ?_⟩
      · rw [Timeout.reported_cons_of_not_isLast hp.not_isLast]
      · rw [h.events_checked hp, Event.fromLate_append_of_cons hlate, List.append_assoc]
        rfl
      · intro e he
        rcases List.mem_append.1 he with he | he
        · exact hafter e he
        · rw [List.mem_singleton.1 he]
          rfl

/-- The next row begins where the last one has ended. -/
theorem Before.nextRow {rows columns row : Nat}
    (h : Before limit outer (Frame.mk rows columns row columns).next (r, w)) :
    Before limit outer (Frame.mk rows columns (row + 1) 0).next (r, w) := by
  by_cases hcolumns : columns = 0
  · subst hcolumns
    refine ⟨h.enclosing, by simpa using h.rows, by simpa using h.columns, h.interior, h.events,
      fun hsorted => ?_⟩
    rcases h.known hsorted with hcalm | ⟨c, hc, hnext, -⟩
    · exact .inl hcalm
    · -- nothing can be compared in a grid without columns
      have hzero : c.columns = 0 := by simpa using congrArg Frame.columns hnext
      have hpos := hc.column_pos
      have hle := hc.column_le
      omega
  · have hnext : (Frame.mk rows columns (row + 1) 0).next =
        (Frame.mk rows columns row columns).next := by
      rw [Frame.next_of_ne (Ne.symm hcolumns), Frame.next_of_eq rfl]
    rwa [hnext]

/-- After the last row the search is over. -/
theorem Before.over {rows columns : Nat}
    (h : Before limit outer (Frame.mk rows columns rows columns).next (r, w)) :
    Over limit outer (r, w) where
  events := h.events
  known hsorted := by
    rcases h.known hsorted with hcalm | ⟨c, hc, hnext, hstruck⟩
    · exact .inl hcalm
    · have hlast : c.IsLast := by
        refine hc.isLast ?_
        have hrows : c.rows = rows := by simpa using congrArg Frame.rows hnext
        rw [hnext, Frame.next_of_eq rfl, hrows]
      obtain ⟨inner, current, first, after, hreport, hlate, hafter⟩ := hstruck
      refine .inr ⟨c :: inner, current, first, after, ?_, ?_, hafter⟩
      · rw [Timeout.reported_cons_of_isLast hlast]
        exact hreport
      · rw [hlate, List.append_assoc]
        rfl

end Watch

end TreeDiff
