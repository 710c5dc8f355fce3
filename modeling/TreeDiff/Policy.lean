import TreeDiff.Cost

/-!
# Policies

What a search of the edit graph leaves to its caller: how two elements are compared, which edits
stand for the loss and the gain of an element, and what an edit costs. The comparison and the
price run in a monad `m`, and so may read and change a state.

* `Policy m α β δ`: a policy on elements `α` of the first sequence and `β` of the second, with
  edits `δ`.
* `Policy.lift`: a policy that neither reads nor changes anything, in any monad.
* `Policy.onFirst`, `Policy.onSecond`: a policy with its first or second elements replaced by what
  stands for them.
* `Policy.traced`: the policy with its calls written to a log.
* `Policy.recorded`: the policy on numbered elements, with its comparisons and their answers written
  to a log.
-/

namespace TreeDiff

/-- How elements are compared, which edits they are lost and gained by, and what edits cost. -/
structure Policy (m : Type → Type) (α β δ : Type) where
  /-- The edit by which an element of the first sequence is lost. -/
  delete : α → δ
  /-- The edit by which an element of the second sequence is gained. -/
  insert : β → δ
  /-- The edit that matches two elements, if they can be matched. -/
  compare : α → β → m (Option δ)
  /-- The cost of an edit. -/
  cost : δ → m Nat
  /-- The largest cost of a script. -/
  ceiling : Nat := maxCost

/-- A call of a policy by a search. -/
inductive Call (α β δ : Type) where
  | compare (x : α) (y : β)
  | cost (d : δ)
  deriving DecidableEq

/-- A comparison of two elements with its answer. -/
structure Comparison (α β δ : Type) where
  first : α
  second : β
  answer : Option δ
  deriving DecidableEq

/-- A log of comparisons of elements that are given with their places in two sequences. -/
abbrev Answers (α β δ : Type) : Type := Array (Comparison (α × Nat) (β × Nat) δ)

namespace Policy

variable {m : Type → Type} {α α' β δ σ : Type}

/-- The policy with given answers, in any monad. -/
def lift [Monad m] (P : Policy Id α β δ) : Policy m α β δ where
  delete := P.delete
  insert := P.insert
  compare x y := pure (P.compare x y).run
  cost d := pure (P.cost d).run
  ceiling := P.ceiling

/-- The policy on elements that `f` turns into elements of the first sequence. -/
def onFirst (P : Policy m α β δ) (f : α' → α) : Policy m α' β δ where
  delete x := P.delete (f x)
  insert := P.insert
  compare x y := P.compare (f x) y
  cost := P.cost
  ceiling := P.ceiling

/-- The policy on elements that `f` turns into elements of the second sequence. -/
def onSecond {β' : Type} (P : Policy m α β δ) (f : β' → β) : Policy m α β' δ where
  delete := P.delete
  insert y := P.insert (f y)
  compare x y := P.compare x (f y)
  cost := P.cost
  ceiling := P.ceiling

/-- The policy that writes each of its calls to a log before it answers. -/
def traced (P : Policy (Attempt σ) α β δ) :
    Policy (Attempt (σ × Array (Call α β δ))) α β δ where
  delete := P.delete
  insert := P.insert
  compare x y := do
    Attempt.record (.compare x y)
    Attempt.onFst (P.compare x y)
  cost d := do
    Attempt.record (.cost d)
    Attempt.onFst (P.cost d)
  ceiling := P.ceiling

/-- The policy on elements with their places in the sequences, which writes the answer of each of
its comparisons to a log. -/
def recorded (P : Policy (Attempt σ) α β δ) :
    Policy (Attempt (σ × Answers α β δ)) (α × Nat) (β × Nat) δ where
  delete x := P.delete x.1
  insert y := P.insert y.1
  compare x y := do
    let answer ← Attempt.onFst (P.compare x.1 y.1)
    Attempt.record ⟨x, y, answer⟩
    return answer
  cost d := Attempt.onFst (P.cost d)
  ceiling := P.ceiling

end Policy

end TreeDiff
