import TreeDiff.Policy
import TreeDiff.Settings

/-!
# The search for a cheapest script

The edit graph of two sequences has a position for every pair of suffixes. A script for a position
turns the one suffix into the other: it deletes the head of the first, inserts the head of the
second, or matches both, and goes on at the position where the suffixes have become shorter.

The search keeps one row of scripts at a time, those for one suffix of the first sequence and all
suffixes of the second. It starts from the row for the empty suffix and goes up to the whole first
sequence; each row is built from its end, so that a position comes after those it may move to.

* `Row`: the scripts of a row, the one for the whole second sequence first.
* `Policy.cell`: the script of a position from the scripts of the three positions it may move to.
* `Policy.nextRow`: the row above a row.
* `search`: the script for the two whole sequences.
* `cheapestScript`, `cheapestEdits`: the search without a limit of time, with and without the
  annotations. There is nothing it could report instead of a script but a fault.
* `cheapestEditsWithin`: the search within the time that the settings allow.
-/

namespace TreeDiff

/-- An element with the edit by which it is lost or gained, and the price of that edit. -/
structure Priced (α δ : Type) where
  item : α
  edit : δ
  price : Nat

/-- The scripts for one suffix of the first sequence: `first` for the whole second sequence and
`rest` for its proper suffixes, longest first. `solved` is the number of positions of the edit
graph that have a script. -/
structure Row (δ : Type) where
  first : Script δ
  rest : List (Script δ)
  solved : Nat

namespace Row

variable {δ : Type}

/-- The row of one script, after `solved` positions in the rows below. -/
def start (s : Script δ) (solved : Nat) : Row δ := ⟨s, [], solved + 1⟩

/-- The row with a script for the next longer suffix of the second sequence. -/
def push (row : Row δ) (s : Script δ) : Row δ := ⟨s, row.first :: row.rest, row.solved + 1⟩

/-- All scripts of the row. -/
def scripts (row : Row δ) : List (Script δ) := row.first :: row.rest

/-- The script for the empty suffix of the second sequence. -/
def last (row : Row δ) : Script δ := row.rest.getLastD row.first

end Row

namespace Policy

variable {m : Type → Type} [Monad m] {α β δ τ : Type}

/-- The elements of the first sequence with the prices of their deletions, front to back. -/
def deletions (P : Policy m α β δ) (xs : List α) : m (List (Priced α δ)) :=
  xs.mapM fun x => return ⟨x, P.delete x, ← P.cost (P.delete x)⟩

/-- The elements of the second sequence with the prices of their insertions, front to back. -/
def insertions (P : Policy m α β δ) (ys : List β) : m (List (Priced β δ)) :=
  ys.mapM fun y => return ⟨y, P.insert y, ← P.cost (P.insert y)⟩

/-- The script that loses or gains an element and goes on as `s`. -/
def prepend (P : Policy m α β δ) {ε : Type} (x : Priced ε δ) (s : Script δ) :
    Except Fault (Script δ) :=
  s.prepend P.ceiling x.edit x.price

/-- The row for the empty suffix of the first sequence: insertions only. -/
def border (P : Policy m α β δ) (ys : List (Priced β δ)) : Except Fault (Row δ) :=
  ys.foldrM (fun y row => return row.push (← P.prepend y row.first)) (.start .empty 0)

variable [MonadLiftT (Except Fault) m]

/-- The script that matches `x` and `y` and goes on as `s`, if they can be matched. -/
def matching (P : Policy m α β δ) (x : α) (y : β) (s : Script δ) : m (Option (Script δ)) := do
  match ← P.compare x y with
  | none => return none
  | some d =>
    let price ← P.cost d
    return some (← s.prepend P.ceiling d price)

/-- The script of a position with the heads `x` and `y`, from the scripts of the positions that
have lost `x`, gained `y`, and both. -/
def cell (P : Policy m α β δ) (tie : TieBreak) (x : Priced α δ) (y : Priced β δ)
    (lost gained both : Script δ) : m (Script δ) := do
  let viaDelete ← P.prepend x lost
  let viaInsert ← P.prepend y gained
  let viaMatch ← P.matching x.item y.item both
  return tie.pick viaDelete viaInsert viaMatch

/-- The row with the script of its next position, that of the heads `x` and `y`. The interrupt is
asked first. -/
def nextCell (P : Policy m α β δ) (tie : TieBreak) (interrupt : Interrupt m τ) (total : Nat)
    (x : Priced α δ) : Priced β δ × Script δ × Script δ → Row δ → ExceptT τ m (Row δ)
  | (y, lost, both), row => do
    match ← interrupt row.solved total with
    | some t => throw t
    | none => return row.push (← P.cell tie x y lost row.first both)

/-- The row for a suffix with the head `x`, from the row `below` for the suffix without it. -/
def nextRow (P : Policy m α β δ) (tie : TieBreak) (interrupt : Interrupt m τ) (total : Nat)
    (ys : List (Priced β δ)) (x : Priced α δ) (below : Row δ) : ExceptT τ m (Row δ) := do
  let corner ← liftM (P.prepend x below.last)
  (ys.zip (below.scripts.zip below.rest)).foldrM (P.nextCell tie interrupt total x)
    (.start corner below.solved)

end Policy

section

variable {m : Type → Type} [Monad m] [MonadLiftT (Except Fault) m] {α β δ τ : Type}

/-- The script for two sequences, unless the interrupt ends the search. -/
def search (P : Policy m α β δ) (tie : TieBreak) (interrupt : Interrupt m τ)
    (xs : List α) (ys : List β) : ExceptT τ m (Script δ) := do
  let deletions ← P.deletions xs
  let insertions ← P.insertions ys
  let border ← liftM (P.border insertions)
  let total := (xs.length + 1) * (ys.length + 1)
  let row ← deletions.foldrM (P.nextRow tie interrupt total insertions) border
  return row.first

/-- The result of a computation that nothing can end early. -/
def uninterrupted {γ : Type} (x : ExceptT Empty m γ) : m γ := do
  match ← x.run with
  | .ok a => return a
  | .error e => nomatch e

/-- A cheapest script that turns `xs` into `ys`, with its annotations. -/
def cheapestScript (P : Policy m α β δ) (settings : Settings) (xs : List α) (ys : List β) :
    m (Script δ) :=
  uninterrupted (search P settings.tieBreak .never xs ys)

/-- The edits of a cheapest script that turns `xs` into `ys`. -/
def cheapestEdits (P : Policy m α β δ) (settings : Settings) (xs : List α) (ys : List β) :
    m (List δ) :=
  return (← cheapestScript P settings xs ys).edits

/-- The edits of a cheapest script that turns `xs` into `ys`, found within the time that the
settings allow from now on. -/
def cheapestEditsWithin (clock : m Instant) (P : Policy m α β δ) (settings : Settings)
    (xs : List α) (ys : List β) : ExceptT Timeout m (List δ) := do
  let limit ← settings.limit clock
  let script ← search P settings.tieBreak (.deadline clock limit) xs ys
  return script.edits

end

end TreeDiff
