import TreeDiff.Grid.Search

/-!
# The search with a chart of its positions

The search runs beside a chart of the scripts that the positions of the edit graph have got so far.
It never reads the chart.

* `Chart`: the scripts, row by row.
* `Chart.corner`, `Chart.next`: the computation of the script for the first position of a row, and
  for the next position, with the script written to the chart.
* `Policy.chartedBorder`, `Policy.chartedCell`, `Policy.chartedRow`: the parts of the search.
* `chartedSearch`: the search with the chart.
-/

namespace TreeDiff

/-- The scripts of the positions that have one, row by row: the last row first, and in each row the
last position first. -/
abbrev Chart (δ : Type) : Type := List (List (Script δ))

variable {σ α β δ τ : Type}

namespace Chart

/-- The chart when the first position of a row has got its script. -/
def newRow (s : Script δ) (chart : Chart δ) : Chart δ := [s] :: chart

/-- The chart when the next position of a row has got its script. -/
def push (s : Script δ) : Chart δ → Chart δ
  | [] => [[s]]
  | row :: rows => (s :: row) :: rows

/-- The script of the first position of a row. -/
def corner (x : Attempt σ (Script δ)) : Attempt (σ × Chart δ) (Script δ) := do
  let s ← x.onFst
  Attempt.beside (newRow s)
  return s

/-- The script of the next position of a row. -/
def next (x : Attempt σ (Script δ)) : Attempt (σ × Chart δ) (Script δ) := do
  let s ← x.onFst
  Attempt.beside (push s)
  return s

end Chart

namespace Policy

/-- The row for the empty suffix of the first sequence. -/
def chartedBorder (P : Policy (Attempt σ) α β δ) (ys : List (Priced β δ)) :
    Attempt (σ × Chart δ) (Row δ) := do
  let corner ← Chart.corner (pure .empty)
  ys.foldrM (fun y row => do
    return row.push (← Chart.next (liftM (P.prepend y row.first)))) (.start corner 0)

/-- The row with the script of its next position. -/
def chartedCell (P : Policy (Attempt σ) α β δ) (tie : TieBreak)
    (interrupt : Interrupt (Attempt σ) τ) (total : Nat) (x : Priced α δ) :
    Priced β δ × Script δ × Script δ → Row δ → ExceptT τ (Attempt (σ × Chart δ)) (Row δ)
  | (y, lost, both), row => do
    match ← (interrupt.onFst row.solved total : Attempt (σ × Chart δ) (Option τ)) with
    | some t => throw t
    | none => return row.push (← Chart.next (P.cell tie x y lost row.first both))

/-- The row above the row `below`. -/
def chartedRow (P : Policy (Attempt σ) α β δ) (tie : TieBreak) (interrupt : Interrupt (Attempt σ) τ)
    (total : Nat) (ys : List (Priced β δ)) (x : Priced α δ) (below : Row δ) :
    ExceptT τ (Attempt (σ × Chart δ)) (Row δ) := do
  let corner ← (Chart.corner (liftM (P.prepend x below.last)) : Attempt (σ × Chart δ) _)
  (ys.zip (below.scripts.zip below.rest)).foldrM (P.chartedCell tie interrupt total x)
    (.start corner below.solved)

end Policy

/-- The search, with a chart of the positions that have a script. -/
def chartedSearch (P : Policy (Attempt σ) α β δ) (tie : TieBreak)
    (interrupt : Interrupt (Attempt σ) τ) (xs : List α) (ys : List β) :
    ExceptT τ (Attempt (σ × Chart δ)) (Script δ) := do
  let deletions ← ((P.deletions xs).onFst : Attempt (σ × Chart δ) _)
  let insertions ← ((P.insertions ys).onFst : Attempt (σ × Chart δ) _)
  let border ← P.chartedBorder insertions
  let total := (xs.length + 1) * (ys.length + 1)
  let row ← deletions.foldrM (P.chartedRow tie interrupt total insertions) border
  return row.first

end TreeDiff
