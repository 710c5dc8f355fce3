import TreeDiff.Script.Linked

/-!
# A shelf of scripts

A shelf keeps scripts in numbered places. A place is filled once and may be emptied later; the
number of places only grows. The scripts of a shelf are kept as linked nodes, so that they can have
a common end.

* `Places`: values in numbered places.
* `Shelf.Action`, `Shelf.Answer`: what can be done with a shelf, and what it answers.
* `Shelf.act`: an action. `Shelf.next`, `Shelf.run`: the shelf after an action or several, of which
  one that meets a fault does not end the run.
-/

namespace TreeDiff

/-! ## Places -/

/-- Values in numbered places, some of them empty. -/
abbrev Places (α : Type) : Type := List (Option α)

namespace Places

variable {α : Type} (places : Places α)

/-- The value in a place, if it is filled. -/
def get? (place : Nat) : Option α := (places[place]?).join

/-- Fills the next place. -/
def put (a : α) : Places α := places ++ [some a]

/-- Empties a place. -/
def vacate (place : Nat) : Places α := places.set place none

end Places

/-! ## Shelves -/

/-- Scripts in numbered places, some of them empty, and the nodes of the scripts. -/
structure Shelf (δ : Type) where
  nodes : Nodes δ
  places : Places Linked

namespace Shelf

variable {δ : Type}

/-- The shelf without a place. -/
def empty : Shelf δ := ⟨.empty, []⟩

/-- What can be done with a shelf. -/
inductive Action (δ : Type) where
  /-- Puts the empty script into the next place. -/
  | empty
  /-- Puts the script at `place`, with `edit` of cost `cost` in front of it, into the next place. -/
  | prepend (place : Nat) (edit : δ) (cost : Nat)
  /-- Puts a copy of the script at `place` into the next place. -/
  | clone (place : Nat)
  /-- Empties the place and hands over the edits of its script. -/
  | take (place : Nat)
  /-- Empties the place. -/
  | drop (place : Nat)

/-- What a shelf answers. -/
inductive Answer (δ : Type) where
  /-- The place that has been filled. -/
  | filled (place : Nat)
  /-- The edits of a script that has been taken out. -/
  | edits (ds : List δ)
  | nothing

/-- Puts a script into the next place. -/
def put (l : Linked) : Attempt (Shelf δ) (Answer δ) := fun shelf =>
  .ok (.filled shelf.places.length) { shelf with places := shelf.places.put l }

/-- Does something with the nodes of a shelf. -/
def onNodes {α : Type} (x : Attempt (Nodes δ) α) : Attempt (Shelf δ) α := fun ⟨nodes, places⟩ =>
  match x nodes with
  | .ok a nodes => .ok a ⟨nodes, places⟩
  | .error e nodes => .error e ⟨nodes, places⟩

/-- Does something with the script at a place, nothing if the place is not filled. -/
def withScript (place : Nat) (act : Linked → Attempt (Shelf δ) (Answer δ)) :
    Attempt (Shelf δ) (Answer δ) := fun shelf =>
  match shelf.places.get? place with
  | none => .ok .nothing shelf
  | some l => act l shelf

/-- Empties a place and gives up its script. -/
def remove (place : Nat) (give : Linked → Nodes δ → Answer δ × Nodes δ) :
    Attempt (Shelf δ) (Answer δ) :=
  withScript place fun l shelf =>
    let ⟨nodes, places⟩ := shelf
    let (answer, nodes) := give l nodes
    .ok answer ⟨nodes, places.vacate place⟩

/-- An action. An action on a place that is not filled does nothing. -/
def act (ceiling : Nat) : Action δ → Attempt (Shelf δ) (Answer δ)
  | .empty => put .empty
  | .prepend place d c => withScript place fun l => do
    put (← onNodes (Nodes.prepend ceiling d c l))
  | .clone place => withScript place fun l => do
    onNodes (modify (·.share l.first))
    put l
  | .take place => remove place fun l nodes =>
    let (ds, nodes) := nodes.takeEdits l
    (.edits ds, nodes)
  | .drop place => remove place fun l nodes => (.nothing, nodes.release l.first)

/-- The shelf after an action. A fault leaves the shelf as it is at the fault. -/
def next (ceiling : Nat) (shelf : Shelf δ) (action : Action δ) : Shelf δ :=
  match act ceiling action shelf with
  | .ok _ after => after
  | .error _ after => after

/-- The shelf after some actions. -/
def run (ceiling : Nat) (shelf : Shelf δ) (actions : List (Action δ)) : Shelf δ :=
  actions.foldl (next ceiling) shelf

end Shelf

end TreeDiff
