import TreeDiff.Policy
import TreeDiff.Settings

/-!
# The recurrence of cheapest scripts

A cheapest script for two sequences begins with one of the three moves and goes on with a cheapest
script for what is left. Written down from the front, this is a recursion on the two sequences that
solves a position as often as it is reached, in exact arithmetic.

* `TieBreak.ranked`: the candidates of a position in the order of the tie break.
* `Script.firstCheapest`: the first script of a list that no script of the list undercuts.
* `Policy.best`: the script that the recursion gives.
* `Policy.optimum`: the recursion on total costs alone.
* `Policy.sums`: the sums that it compares at a position. `Policy.Fits` says that none of them, at
  any position, lies above the ceiling.
-/

namespace TreeDiff

/-- The scripts that begin with a deletion, an insertion and, if there is one, a match, in the order
of the tie break. -/
def TieBreak.ranked {δ : Type} (tie : TieBreak) (delete insert : Script δ)
    (both : Option (Script δ)) : List (Script δ) :=
  match tie with
  | .edits => delete :: insert :: both.toList
  | .diagonal => both.toList ++ [delete, insert]

/-- The first script of a list that is as cheap as every script of the list. -/
def Script.firstCheapest {δ : Type} (scripts : List (Script δ)) : Script δ :=
  (scripts.find? fun s => scripts.all fun t => s.total ≤ t.total).getD .empty

namespace Policy

variable {α β δ : Type}

/-- The script `s` with `d` in front, at the cost of `d`. -/
def extend (P : Policy Id α β δ) (d : δ) (s : Script δ) : Script δ := s.cons d (P.cost d).run

/-- The cheapest script for two sequences. Of the moves of the same total cost the tie break takes
one. -/
def best (P : Policy Id α β δ) (tie : TieBreak) : List α → List β → Script δ
  | [], [] => .empty
  | x :: xs, [] => P.extend (P.delete x) (P.best tie xs [])
  | [], y :: ys => P.extend (P.insert y) (P.best tie [] ys)
  | x :: xs, y :: ys =>
    .firstCheapest <| tie.ranked (P.extend (P.delete x) (P.best tie xs (y :: ys)))
      (P.extend (P.insert y) (P.best tie (x :: xs) ys))
      ((P.compare x y).run.map fun d => P.extend d (P.best tie xs ys))
termination_by xs ys => xs.length + ys.length

/-- The least total cost of a script for two sequences. -/
def optimum (P : Policy Id α β δ) : List α → List β → Nat
  | [], [] => 0
  | x :: xs, [] => (P.cost (P.delete x)).run + P.optimum xs []
  | [], y :: ys => (P.cost (P.insert y)).run + P.optimum [] ys
  | x :: xs, y :: ys =>
    let edits := min ((P.cost (P.delete x)).run + P.optimum xs (y :: ys))
      ((P.cost (P.insert y)).run + P.optimum (x :: xs) ys)
    match (P.compare x y).run with
    | none => edits
    | some d => min edits ((P.cost d).run + P.optimum xs ys)
termination_by xs ys => xs.length + ys.length

/-- The sums of costs that the recurrence compares at a position. -/
def sums (P : Policy Id α β δ) : List α → List β → List Nat
  | [], [] => []
  | x :: xs, [] => [(P.cost (P.delete x)).run + P.optimum xs []]
  | [], y :: ys => [(P.cost (P.insert y)).run + P.optimum [] ys]
  | x :: xs, y :: ys =>
    [(P.cost (P.delete x)).run + P.optimum xs (y :: ys),
      (P.cost (P.insert y)).run + P.optimum (x :: xs) ys] ++
    ((P.compare x y).run.map fun d => (P.cost d).run + P.optimum xs ys).toList

/-- No sum of the recurrence, at any position, lies above the ceiling. -/
def Fits (P : Policy Id α β δ) (xs : List α) (ys : List β) : Prop :=
  ∀ xs' ys', xs' <:+ xs → ys' <:+ ys → ∀ c ∈ P.sums xs' ys', c ≤ P.ceiling

end Policy

end TreeDiff
