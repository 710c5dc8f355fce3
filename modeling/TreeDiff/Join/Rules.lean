import TreeDiff.Join.Basic

/-!
# Ready-made joins

* `balanceJoin`: changes of a balance are added up if they go in the same direction, and cancel
  out if their sum is zero.
* `chainJoin`: two chains of words become one if the last word of the first ends with the
  character that the first word of the second begins with. Two empty words fit together as well.
* `JoinRow`, `tableJoin`: the join by the first row of a table for two values. Values without a row
  stay two.
-/

namespace TreeDiff

/-- Two changes of a balance: none if their sum is zero, their sum if they have the same sign. The
sums are exact, as a change has no bounds here. -/
def balanceJoin : Join Id Int := fun x y =>
  if x + y = 0 then pure .empty
  else if x.sign = y.sign then pure (.merged (x + y))
  else pure (.distinct x y)

/-! ## Chains of words -/

/-- The second word goes on where the first one ends. -/
def fits (x y : String) : Bool := x.toList.getLast? = y.toList.head?

/-- Two chains in one, if the second goes on where the first one ends. -/
def chainJoin : Join Id (List String) := fun xs ys =>
  match xs.getLast?, ys.head? with
  | some x, some y => if fits x y then pure (.merged (xs ++ ys)) else pure (.distinct xs ys)
  | _, _ => pure (.distinct xs ys)

/-! ## Tables -/

/-- A row of a table of joins: two values and what becomes of them. -/
structure JoinRow (α : Type) where
  first : α
  second : α
  result : Joined α

/-- The join by the first row for the two values. -/
def tableJoin {α : Type} [DecidableEq α] (rows : List (JoinRow α)) : Join Id α := fun x y =>
  match rows.find? fun row => row.first = x ∧ row.second = y with
  | some row => pure row.result
  | none => pure (.distinct x y)

end TreeDiff
