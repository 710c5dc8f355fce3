/-!
# Joining neighbours

Two neighbouring values may cancel out, become one value, or stay two. A join says which; a list is
compacted by joining each of its values with the last value kept so far.

* `Joined α`: what becomes of two values, with its values as a list (`Joined.toList`) and the
  values changed (`Joined.map`, `Joined.mapM`).
* `Join m α`: how two values are joined, in a monad `m`.
* `compact`: the fold. The values kept so far are a stack; a value that arrives takes the last one
  off and puts back what becomes of the two.
* `Join.option`, `Join.boxed`: a join lifted to values that may be absent, and to boxed values.
* `Join.traced`: a join that writes the pairs it is asked about to a log.
* `Wrapper`, `Wrapped`: values that may be absent and boxed values, in any nesting. `Join.lift` joins
  values in some wrappers; each wrapper takes what is below it as its base.
-/

namespace TreeDiff

/-- What becomes of two neighbouring values. -/
inductive Joined (α : Type) where
  /-- They cancel out. -/
  | empty
  /-- They become one value. -/
  | merged (value : α)
  /-- They stay two values. -/
  | distinct (first second : α)
  deriving DecidableEq

namespace Joined

variable {α β : Type} {m : Type → Type}

/-- The values, in order. -/
def toList : Joined α → List α
  | empty => []
  | merged x => [x]
  | distinct x y => [x, y]

def length (j : Joined α) : Nat := j.toList.length

def isEmpty : Joined α → Bool
  | empty => true
  | _ => false

def isMerged : Joined α → Bool
  | merged _ => true
  | _ => false

/-- The one value that the two became. -/
def merged? : Joined α → Option α
  | merged x => some x
  | _ => none

/-- The values changed by `f`. -/
def map (f : α → β) : Joined α → Joined β
  | empty => empty
  | merged x => merged (f x)
  | distinct x y => distinct (f x) (f y)

/-- The values changed by `f`, the first before the second. -/
def mapM [Monad m] (f : α → m β) : Joined α → m (Joined β)
  | empty => return empty
  | merged x => return merged (← f x)
  | distinct x y => do
    let x' ← f x
    return distinct x' (← f y)

@[simp] theorem toList_map (f : α → β) (j : Joined α) : (j.map f).toList = j.toList.map f := by
  cases j <;> rfl

end Joined

/-- How two neighbouring values are joined. -/
abbrev Join (m : Type → Type) (α : Type) : Type := α → α → m (Joined α)

/-- A value in a box of its own. -/
structure Boxed (α : Type) where
  value : α
  deriving DecidableEq

section

variable {m : Type → Type} [Monad m] {α : Type}

/-- The stack of kept values after a value has arrived: the value on top, if nothing is kept, or
what becomes of the last kept value and the new one. -/
def keep (join : Join m α) (kept : List α) (x : α) : m (List α) :=
  match kept with
  | [] => return [x]
  | last :: below => return (← join last x).toList.reverse ++ below

/-- The list with each value joined with the last one kept before it. -/
def compact (join : Join m α) (xs : List α) : m (List α) :=
  return (← xs.foldlM (keep join) []).reverse

namespace Join

/-- The join of values that may be absent. An absent value joins with nothing. -/
def option (join : Join m α) : Join m (Option α)
  | some x, some y => return (← join x y).map some
  | x, y => return .distinct x y

/-- The join of boxed values. -/
def boxed (join : Join m α) : Join m (Boxed α) :=
  fun x y => return (← join x.value y.value).map Boxed.mk

/-- The join that writes each pair that it is asked about to a log. -/
def traced (join : Join m α) : Join (StateT (Array (α × α)) m) α := fun x y => do
  modify (·.push (x, y))
  join x y

end Join

end

/-! ## Wrapped values -/

/-- What a value is wrapped in. -/
inductive Wrapper where
  | option
  | boxed
  deriving DecidableEq

/-- The values in some wrappers, the outermost one first. -/
def Wrapped (α : Type) : List Wrapper → Type
  | [] => α
  | .option :: ws => Option (Wrapped α ws)
  | .boxed :: ws => Boxed (Wrapped α ws)

/-- The join of values in some wrappers, by a join of the values inside. -/
def Join.lift {m : Type → Type} [Monad m] {α : Type} (join : Join m α) :
    (ws : List Wrapper) → Join m (Wrapped α ws)
  | [] => join
  | .option :: ws => (join.lift ws).option
  | .boxed :: ws => (join.lift ws).boxed

end TreeDiff
