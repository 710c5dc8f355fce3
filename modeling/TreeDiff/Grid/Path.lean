import TreeDiff.Policy

/-!
# Paths of the edit graph

A path takes one move after the other from a position of the edit graph to its end, where both
sequences are used up. The edits of its moves are a script that turns the one sequence into the
other, and all such scripts are of this form.

* `Move`: deletion, insertion, or the match of both heads.
* `Step.lost`, `Step.gained`: how many elements of the two sequences the steps use up.
* `Path`: the paths from two sequences, for given edits of losses and gains and a given relation
  that says which edits match which elements.
* `Policy.Path`: the paths that a policy allows, and `Policy.pathCost` the sum of the costs of
  their edits.
-/

namespace TreeDiff

/-- The moves from a position of the edit graph. -/
inductive Move
  | delete
  | insert
  | both
  deriving DecidableEq

/-- A move together with its edit. -/
structure Step (δ : Type) where
  move : Move
  edit : δ
  deriving DecidableEq

namespace Step

variable {δ : Type}

/-- The number of elements of the first sequence that the steps use up. -/
def lost (steps : List (Step δ)) : Nat := steps.countP fun step => step.move ≠ .insert

/-- The number of elements of the second sequence that the steps use up. -/
def gained (steps : List (Step δ)) : Nat := steps.countP fun step => step.move ≠ .delete

end Step

/-- The paths that use up two sequences. -/
inductive Path {α β δ : Type} (delete : α → δ) (insert : β → δ) (matched : α → β → δ → Prop) :
    List α → List β → List (Step δ) → Prop
  /-- Both sequences are used up. -/
  | done : Path delete insert matched [] [] []
  /-- The head of the first sequence is lost. -/
  | delete {xs : List α} {ys : List β} {steps : List (Step δ)} (x : α) :
    Path delete insert matched xs ys steps →
      Path delete insert matched (x :: xs) ys (⟨.delete, delete x⟩ :: steps)
  /-- The head of the second sequence is gained. -/
  | insert {xs : List α} {ys : List β} {steps : List (Step δ)} (y : β) :
    Path delete insert matched xs ys steps →
      Path delete insert matched xs (y :: ys) (⟨.insert, insert y⟩ :: steps)
  /-- The heads are matched. -/
  | both {xs : List α} {ys : List β} {steps : List (Step δ)} {x : α} {y : β} {d : δ} :
    matched x y d → Path delete insert matched xs ys steps →
      Path delete insert matched (x :: xs) (y :: ys) (⟨.both, d⟩ :: steps)

namespace Policy

variable {α β δ : Type}

/-- The paths that a policy allows. -/
def Path (P : Policy Id α β δ) : List α → List β → List (Step δ) → Prop :=
  TreeDiff.Path P.delete P.insert fun x y d => (P.compare x y).run = some d

/-- The sum of the costs of the edits of a path. -/
def pathCost (P : Policy Id α β δ) : List (Step δ) → Nat
  | [] => 0
  | step :: steps => (P.cost step.edit).run + P.pathCost steps

end Policy

end TreeDiff
