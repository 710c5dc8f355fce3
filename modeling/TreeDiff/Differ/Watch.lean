import TreeDiff.Differ

/-!
# Searches inside searches, watched

The comparison of two trees is a search of their children, inside the search that asks for it. Here
the differ runs beside a record of the searches that are active, of the positions at which they
stand, and of what has happened so far. It never reads the record.

* `Frame`: an active search at one of its positions, with `Frame.next`, the position that comes
  after it. `Timeout.reported` is the report that the active searches leave when their time runs
  out.
* `Event`: a check of the clock, with the searches that are active then, or the start of a
  comparison. `Event.Checked` is the order in which they have to come.
* `Watch`: the active searches and the events so far. `Interrupt.watched` and `Watch.inside` keep
  it up to date.
* `Differ.watchedMatch?`: the match of two trees, watched.
* `Differ.watchedTreesWithin`, `Differ.watchedSequencesWithin`: the calls with a limit of time,
  watched.
-/

namespace TreeDiff

/-! ## Active searches -/

/-- A search on sequences of `rows` and `columns` elements, at the position for the last `row`
elements of the first one and the last `column` elements of the second one. -/
structure Frame where
  rows : Nat
  columns : Nat
  row : Nat
  column : Nat
  deriving DecidableEq

namespace Frame

/-- A search that begins. -/
def start (rows columns : Nat) : Frame := ⟨rows, columns, 0, 0⟩

/-- The number of positions that come before the one at which the search stands. -/
def solved (c : Frame) : Nat := c.row * (c.columns + 1) + c.column

/-- The report of a search that ends where it stands. -/
def timeout (c : Frame) : Timeout := ⟨c.solved, (c.rows + 1) * (c.columns + 1)⟩

/-- The search at the position that comes after `solved` other ones. -/
def moveTo (c : Frame) (solved : Nat) : Frame :=
  { c with row := solved / (c.columns + 1), column := solved % (c.columns + 1) }

/-- The search stands at a position with two heads, which it compares. -/
structure Interior (c : Frame) : Prop where
  row_pos : 0 < c.row
  row_le : c.row ≤ c.rows
  column_pos : 0 < c.column
  column_le : c.column ≤ c.columns

/-- The search stands at its last position. -/
def IsLast (c : Frame) : Prop := c.row = c.rows ∧ c.column = c.columns

instance (c : Frame) : Decidable c.IsLast := inferInstanceAs (Decidable (_ ∧ _))

/-- The search at the next position with two heads. -/
def next (c : Frame) : Frame :=
  if c.column = c.columns then { c with row := c.row + 1, column := 1 }
  else { c with column := c.column + 1 }

@[simp] theorem rows_next (c : Frame) : c.next.rows = c.rows := by
  unfold next
  split <;> rfl

@[simp] theorem columns_next (c : Frame) : c.next.columns = c.columns := by
  unfold next
  split <;> rfl

theorem next_of_eq {c : Frame} (h : c.column = c.columns) :
    c.next = { c with row := c.row + 1, column := 1 } := if_pos h

theorem next_of_ne {c : Frame} (h : c.column ≠ c.columns) :
    c.next = { c with column := c.column + 1 } := if_neg h

/-- The number of positions before a position determines it. -/
theorem Interior.moveTo_solved {c p : Frame} (hp : p.Interior) (hrows : c.rows = p.rows)
    (hcolumns : c.columns = p.columns) : c.moveTo p.solved = p := by
  obtain ⟨rows, columns, row, column⟩ := p
  have hcolumn : column < columns + 1 := Nat.lt_succ_of_le hp.column_le
  have hdiv : (row * (columns + 1) + column) / (columns + 1) = row := by
    rw [Nat.mul_comm, Nat.mul_add_div (Nat.succ_pos columns), Nat.div_eq_of_lt hcolumn,
      Nat.add_zero]
  have hmod : (row * (columns + 1) + column) % (columns + 1) = column := by
    rw [Nat.mul_comm, Nat.mul_add_mod, Nat.mod_eq_of_lt hcolumn]
  obtain ⟨rows', columns', row', column'⟩ := c
  obtain rfl : rows' = rows := hrows
  obtain rfl : columns' = columns := hcolumns
  simp only [moveTo, solved, hdiv, hmod]

/-- A position with another one after it is not the last one. -/
theorem Interior.not_isLast {c : Frame} (h : c.next.Interior) : ¬ c.IsLast := by
  rintro ⟨hrow, hcolumn⟩
  have hle := h.row_le
  rw [next_of_eq hcolumn] at hle
  simp only at hle
  omega

/-- The position after which the rows are used up is the last one. -/
theorem Interior.isLast {c : Frame} (hc : c.Interior) (h : c.next.row = c.rows + 1) :
    c.IsLast := by
  have hle := hc.row_le
  by_cases hcolumn : c.column = c.columns
  · rw [next_of_eq hcolumn] at h
    simp only at h
    exact ⟨by omega, hcolumn⟩
  · rw [next_of_ne hcolumn] at h
    simp only at h
    omega

end Frame

/-- The report of a call that finds its time run out in the search `current`, inside the searches
`enclosing`, the outermost one first. Of those that are not at their last position it is the
outermost one that reports, at its next position; if there is none, it is the current search. -/
def Timeout.reported (enclosing : List Frame) (current : Frame) : Timeout :=
  match enclosing.find? (¬ ·.IsLast) with
  | some c => c.next.timeout
  | none => current.timeout

namespace Timeout

/-- A search that has a position left to check takes the place of those inside it. -/
theorem reported_cons_of_not_isLast {c : Frame} (h : ¬ c.IsLast) (enclosing : List Frame)
    (current : Frame) : reported (c :: enclosing) current = c.next.timeout := by
  unfold reported
  rw [List.find?_cons_of_pos (by simpa using h)]

/-- A search that has none left leaves the report as it is. -/
theorem reported_cons_of_isLast {c : Frame} (h : c.IsLast) (enclosing : List Frame)
    (current : Frame) : reported (c :: enclosing) current = reported enclosing current := by
  unfold reported
  rw [List.find?_cons_of_neg (by simpa using h)]

end Timeout

/-! ## Events -/

/-- What happens in the searches of a call. -/
inductive Event (ℓ : Type) where
  /-- The search `current`, inside the searches `enclosing`, reads the clock before a position. -/
  | check (enclosing : List Frame) (current : Frame) (now : Instant)
  /-- The comparison of two trees starts. -/
  | compare (a b : Tree ℓ)
  deriving DecidableEq

namespace Event

variable {ℓ : Type}

/-- The reading of the clock, if it is a check. -/
def reading? : Event ℓ → Option Instant
  | .check _ _ now => some now
  | .compare _ _ => none

/-- A check that finds the limit reached. -/
def isLate (limit : Instant) (e : Event ℓ) : Bool := e.reading?.any (·.reaches limit)

/-- The start of a comparison. -/
def isCompare : Event ℓ → Bool
  | .check _ _ _ => false
  | .compare _ _ => true

/-- The clock has never gone back. -/
def InOrder (events : List (Event ℓ)) : Prop :=
  (events.filterMap reading?).Pairwise fun now later => now.nanoseconds ≤ later.nanoseconds

/-- The last event is a check that does not find the limit reached. -/
def EndsInTime (limit : Instant) (events : List (Event ℓ)) : Prop :=
  ∃ enclosing current now, events.getLast? = some (.check enclosing current now) ∧
    now.reaches limit = false

/-- All checks are made at positions with two heads, inside searches that stand at such positions as
well, and each comparison starts directly after a check in time. -/
inductive Checked (limit : Instant) : List (Event ℓ) → Prop
  | nil : Checked limit []
  | check {events : List (Event ℓ)} {enclosing : List Frame} {current : Frame} {now : Instant} :
    Checked limit events → (∀ c ∈ current :: enclosing, c.Interior) →
      Checked limit (events ++ [.check enclosing current now])
  | compare {events : List (Event ℓ)} {a b : Tree ℓ} :
    Checked limit events → EndsInTime limit events → Checked limit (events ++ [.compare a b])

end Event

/-! ## The watch -/

/-- The active searches, the current one and those around it, and the events so far. -/
structure Watch (ℓ : Type) where
  /-- The searches around the current one, the outermost one first. -/
  enclosing : List Frame
  current : Frame
  events : List (Event ℓ)
  deriving DecidableEq

namespace Watch

variable {σ ℓ τ γ : Type}

/-- The watch when the first search begins. -/
def start (rows columns : Nat) : Watch ℓ := ⟨[], .start rows columns, []⟩

/-- The current search goes to the position that comes after `solved` other ones. -/
def moveTo (w : Watch ℓ) (solved : Nat) : Watch ℓ := { w with current := w.current.moveTo solved }

/-- The current search has read the clock. -/
def checked (w : Watch ℓ) (now : Instant) : Watch ℓ :=
  { w with events := w.events ++ [.check w.enclosing w.current now] }

/-- The comparison of two trees starts, with a search of its own. -/
def enter (w : Watch ℓ) (a b : Tree ℓ) : Watch ℓ where
  enclosing := w.enclosing ++ [w.current]
  current := .start a.children.length b.children.length
  events := w.events ++ [.compare a b]

/-- The searches that were active outside are so again. -/
def leave (w outside : Watch ℓ) : Watch ℓ := { outside with events := w.events }

/-- The readings of the checks, the first one first. -/
def readings (w : Watch ℓ) : Array Instant := (w.events.filterMap Event.reading?).toArray

theorem readings_checked (w : Watch ℓ) (now : Instant) :
    (w.checked now).readings = w.readings.push now := by
  have hnow : [(.check w.enclosing w.current now : Event ℓ)].filterMap Event.reading? = [now] := rfl
  unfold readings checked
  rw [List.filterMap_append, hnow, List.push_toArray]

theorem readings_enter (w : Watch ℓ) (a b : Tree ℓ) : (w.enter a b).readings = w.readings := by
  have hnone : [(.compare a b : Event ℓ)].filterMap Event.reading? = [] := rfl
  unfold readings enter
  rw [List.filterMap_append, hnone, List.append_nil]

/-- A clock whose readings are checks. -/
def clock (clock : Attempt σ Instant) : Attempt (σ × Watch ℓ) Instant := do
  let now ← clock.onFst
  Attempt.beside (·.checked now)
  return now

/-- The comparison `x` of two trees, inside the current search. -/
def inside (a b : Tree ℓ) (x : Reporting τ (Attempt (σ × Watch ℓ)) γ) :
    Reporting τ (Attempt (σ × Watch ℓ)) γ := do
  let (_, outside) ← (get : Attempt (σ × Watch ℓ) (σ × Watch ℓ))
  (Attempt.beside (·.enter a b) : Attempt (σ × Watch ℓ) Unit)
  let answer ← x
  (Attempt.beside (·.leave outside) : Attempt (σ × Watch ℓ) Unit)
  return answer

end Watch

/-- The interrupt of a deadline, with the position and the reading written to the watch. -/
def Interrupt.watched {σ ℓ : Type} (clock : Attempt σ Instant) (limit : Option Instant) :
    Interrupt (Attempt (σ × Watch ℓ)) Timeout :=
  fun solved total => do
    Attempt.beside (·.moveTo solved)
    Interrupt.deadline (Watch.clock clock) limit solved total

/-! ## The differ, watched -/

namespace Differ

variable {σ ℓ τ : Type}

mutual

/-- The match of two trees; the comparisons of its searches are watched. -/
def watchedMatch? (D : Differ (Attempt σ) ℓ) (interrupt : Interrupt (Attempt (σ × Watch ℓ)) τ) :
    (a : Tree ℓ) → (b : Tree ℓ) → Reporting τ (Attempt (σ × Watch ℓ)) (Option (Diff ℓ))
  | .node l cs, b => (D.onFst _).matchNode interrupt l (watchedCandidates D interrupt cs) b

/-- The trees of a list with their comparison, which is watched. -/
def watchedCandidates (D : Differ (Attempt σ) ℓ)
    (interrupt : Interrupt (Attempt (σ × Watch ℓ)) τ) :
    List (Tree ℓ) → List (Candidate (Reporting τ (Attempt (σ × Watch ℓ))) ℓ)
  | [] => []
  | a :: as =>
    ⟨a, fun b => Watch.inside a b (watchedMatch? D interrupt a b)⟩ ::
      watchedCandidates D interrupt as

end

theorem watchedCandidates_eq_map (D : Differ (Attempt σ) ℓ)
    (interrupt : Interrupt (Attempt (σ × Watch ℓ)) τ) (as : List (Tree ℓ)) :
    D.watchedCandidates interrupt as =
      as.map fun a => ⟨a, fun b => Watch.inside a b (D.watchedMatch? interrupt a b)⟩ := by
  induction as with
  | nil => rw [watchedCandidates, List.map_nil]
  | cons a as ih => rw [watchedCandidates, List.map_cons, ih]

theorem watchedMatch?_node (D : Differ (Attempt σ) ℓ)
    (interrupt : Interrupt (Attempt (σ × Watch ℓ)) τ) (l : ℓ) (cs : List (Tree ℓ)) (b : Tree ℓ) :
    D.watchedMatch? interrupt (.node l cs) b =
      (D.onFst _).matchNode interrupt l (D.watchedCandidates interrupt cs) b := by
  rw [watchedMatch?]

/-- The diff of two trees within the time that the settings allow, watched. -/
def watchedTreesWithin (clock : Attempt σ Instant) (D : Differ (Attempt σ) ℓ) (a b : Tree ℓ) :
    ExceptT Timeout (Attempt (σ × Watch ℓ)) (Diff ℓ) := do
  let limit ← D.settings.limit (clock.onFst : Attempt (σ × Watch ℓ) Instant)
  let (d, report) ← (D.watchedMatch? (.watched clock limit) a b).run none
  match report with
  | some t => throw t
  | none => return d.getD (.edit (.replace a b))

/-- A cheapest script of two lists of trees within the time that the settings allow, watched. -/
def watchedSequencesWithin (clock : Attempt σ Instant) (D : Differ (Attempt σ) ℓ)
    (as bs : List (Tree ℓ)) : ExceptT Timeout (Attempt (σ × Watch ℓ)) (List (Diff ℓ)) := do
  let limit ← D.settings.limit (clock.onFst : Attempt (σ × Watch ℓ) Instant)
  let interrupt := Interrupt.watched clock limit
  let (script, report) ←
    ((D.onFst _).searchScript interrupt (D.watchedCandidates interrupt as) bs).run.run none
  match script, report with
  | .error t, _ => throw t
  | .ok _, some t => throw t
  | .ok s, none => return s.edits

end Differ

end TreeDiff
