import TreeDiff.Grid.Search

/-!
# The search by numbers

The search as it goes through arrays. A position of the edit graph has the lengths of its two
suffixes as its number, while the elements are counted from the front, and the rows of scripts grow
while they are read. So each position takes differences of numbers and entries of arrays; any of
these operations may have no result, which ends the search with a slip. The positions themselves are
counted by natural numbers without a bound, as in the search by rows.

* `Slip`: an operation without a result, with `Slip.entry`, `Slip.minus` and `Slip.last`. What an
  array should be like is asked by `Slip.expect`.
* `Guarded`: computations that may end early, or with a slip.
* `TieBreak.choose`: the move that a position takes, from the totals of its candidates.
* `Policy.indexedBorder`, `Policy.indexedRow`, `Policy.indexedCell`: the parts of the search.
* `indexedSearch`: the whole search.
* `indexedScript`: the search without a limit of time, for which running out of time is a slip.
-/

namespace TreeDiff

/-! ## Operations without a result -/

/-- An operation that has no result. -/
inductive Slip
  /-- An entry of an array of the given size, at a place outside of it. -/
  | outside (index size : Nat)
  /-- A difference that is not a natural number. -/
  | negative (x y : Nat)
  /-- An array that has not got the size it should have. -/
  | size (found expected : Nat)
  /-- The last entry of an empty array. -/
  | empty
  /-- The time ran out, and there was no limit. -/
  | noLimit
  deriving DecidableEq

namespace Slip

variable {γ : Type}

/-- The entry at a place of an array. -/
def entry (xs : Array γ) (i : Nat) : Except Slip γ :=
  match xs[i]? with
  | some x => .ok x
  | none => .error (.outside i xs.size)

/-- The difference of two numbers. -/
def minus (x y : Nat) : Except Slip Nat := if y ≤ x then .ok (x - y) else .error (.negative x y)

/-- The size of an array is the one it should have. -/
def expect (xs : Array γ) (n : Nat) : Except Slip Unit :=
  if xs.size = n then .ok () else .error (.size xs.size n)

/-- The last entry of an array. -/
def last (xs : Array γ) : Except Slip γ :=
  match xs.back? with
  | some x => .ok x
  | none => .error .empty

end Slip

/-- Computations that may end early, or with a slip. -/
abbrev Guarded (τ : Type) (m : Type → Type) : Type → Type := ExceptT τ (ExceptT Slip m)

/-! ## The move of a position -/

/-- The move that a position takes; a match with its edit and the price of the edit. -/
inductive Choice (δ : Type)
  | delete
  | insert
  | both (d : δ) (price : Nat)

/-- The first move of the least total in the order of the tie break. There is a match if there is an
edit for it, which comes with its price and the total. -/
def TieBreak.choose {δ : Type} (tie : TieBreak) (deleteTotal insertTotal : Nat)
    (both : Option (δ × Nat × Nat)) : Choice δ :=
  let edit : Choice δ := if insertTotal < deleteTotal then .insert else .delete
  let editTotal := if insertTotal < deleteTotal then insertTotal else deleteTotal
  match tie, both with
  | _, none => edit
  | .edits, some (d, price, total) => if total < editTotal then .both d price else edit
  | .diagonal, some (d, price, total) => if total ≤ editTotal then .both d price else edit

/-! ## The search -/

namespace Policy

variable {m : Type → Type} [Monad m] [MonadLiftT (Except Fault) m] {α β δ τ : Type}

/-- The row for the empty suffix of the first sequence. The script for a suffix of the second one
stands at the length of the suffix. -/
def indexedBorder (P : Policy m α β δ) (qs : Array (Priced β δ)) :
    Guarded τ m (Array (Script δ)) :=
  qs.toList.reverse.zipIdx.foldlM (fun previous (y, rb) => do
    let s ← Slip.entry previous rb
    return previous.push (← P.prepend y s)) #[.empty]

/-- The match of two elements, if there is one: its edit, the price of the edit and the total. -/
def indexedMatch (P : Policy m α β δ) (xs : Array α) (ys : Array β) (previous : Array (Script δ))
    (i j rb : Nat) : Guarded τ m (Option (δ × Nat × Nat)) := do
  let x ← Slip.entry xs i
  let y ← Slip.entry ys j
  match ← P.compare x y with
  | none => return none
  | some d =>
    let price ← P.cost d
    let both ← Slip.entry previous (← Slip.minus rb 1)
    return some (d, price, ← addCosts P.ceiling price both.total)

/-- The script that takes a move. -/
def indexedMove (P : Policy m α β δ) (x : Priced α δ) (y : Priced β δ)
    (previous current : Array (Script δ)) (rb : Nat) : Choice δ → Guarded τ m (Script δ)
  | .delete => do
    let lost ← Slip.entry previous rb
    P.prepend x lost
  | .insert => do
    let gained ← Slip.entry current (← Slip.minus rb 1)
    P.prepend y gained
  | .both d price => do
    let both ← Slip.entry previous (← Slip.minus rb 1)
    both.prepend P.ceiling d price

/-- The script of the position `rb` of a row, whose head in the first sequence is `x` at the place
`i`, from the row below and the scripts of the row so far. -/
def indexedCell (P : Policy m α β δ) (tie : TieBreak) (xs : Array α) (ys : Array β)
    (qs : Array (Priced β δ)) (x : Priced α δ) (i : Nat) (previous current : Array (Script δ))
    (rb : Nat) : Guarded τ m (Script δ) := do
  let j ← Slip.minus ys.size rb
  let y ← Slip.entry qs j
  let lost ← Slip.entry previous rb
  let deleteTotal ← addCosts P.ceiling x.price lost.total
  let gained ← Slip.entry current (← Slip.minus rb 1)
  let insertTotal ← addCosts P.ceiling y.price gained.total
  let both ← P.indexedMatch xs ys previous i j rb
  P.indexedMove x y previous current rb (tie.choose deleteTotal insertTotal both)

/-- The question before a position. -/
def indexedCheck (interrupt : Interrupt m τ) (solved total : Nat) : Guarded τ m Unit := do
  match ← interrupt solved total with
  | some t => throw t
  | none => return ()

/-- The row `ra`, from the row below it. There are scripts for all suffixes in the row below, and
before each position for all shorter suffixes in this one. -/
def indexedRow (P : Policy m α β δ) (tie : TieBreak) (interrupt : Interrupt m τ) (xs : Array α)
    (ys : Array β) (ps : Array (Priced α δ)) (qs : Array (Priced β δ))
    (previous : Array (Script δ)) (ra : Nat) : Guarded τ m (Array (Script δ)) := do
  Slip.expect previous (ys.size + 1)
  let i ← Slip.minus xs.size ra
  let x ← Slip.entry ps i
  let corner ← P.prepend x (← Slip.entry previous 0)
  (List.range' 1 ys.size).foldlM (fun current rb => do
    Slip.expect current rb
    indexedCheck interrupt (ra * (ys.size + 1) + rb) ((xs.size + 1) * (ys.size + 1))
    return current.push (← P.indexedCell tie xs ys qs x i previous current rb)) #[corner]

end Policy

section

variable {m : Type → Type} [Monad m] [MonadLiftT (Except Fault) m] {α β δ τ : Type}

/-- The script for two sequences, unless the interrupt ends the search. -/
def indexedSearch (P : Policy m α β δ) (tie : TieBreak) (interrupt : Interrupt m τ) (xs : List α)
    (ys : List β) : Guarded τ m (Script δ) := do
  let ps ← P.deletions xs
  let qs ← P.insertions ys
  let border ← P.indexedBorder qs.toArray
  let row ← (List.range' 1 xs.length).foldlM
    (P.indexedRow tie interrupt xs.toArray ys.toArray ps.toArray qs.toArray) border
  Slip.last row

/-- The script for two sequences, without a limit of time. -/
def indexedScript (clock : m Instant) (P : Policy m α β δ) (settings : Settings) (xs : List α)
    (ys : List β) : ExceptT Slip m (Script δ) := do
  match ← (indexedSearch P settings.tieBreak (.deadline clock none) xs ys).run with
  | .ok script => return script
  | .error _ => throw .noLimit

end

end TreeDiff
