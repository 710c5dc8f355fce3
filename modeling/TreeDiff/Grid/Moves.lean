import TreeDiff.Grid.Path
import TreeDiff.Settings

/-!
# Moves in the order of the tie break

* `Policy.stepping`: the policy whose edits stand with the moves they are made by. A search with it
  says which moves it has taken.
* `TieBreak.Precedes`: the order in which a tie break prefers moves.
-/

namespace TreeDiff

/-- The policy whose edits stand with their moves. -/
def Policy.stepping {m : Type → Type} [Monad m] {α β δ : Type} (P : Policy m α β δ) :
    Policy m α β (Step δ) where
  delete x := ⟨.delete, P.delete x⟩
  insert y := ⟨.insert, P.insert y⟩
  compare x y := do
    let o ← P.compare x y
    return o.map fun d => ⟨.both, d⟩
  cost step := P.cost step.edit
  ceiling := P.ceiling

namespace TieBreak

/-- The place of a move among the moves of the same total cost. -/
def rank : TieBreak → Move → Nat
  | .edits, .delete => 0
  | .edits, .insert => 1
  | .edits, .both => 2
  | .diagonal, .both => 0
  | .diagonal, .delete => 1
  | .diagonal, .insert => 2

/-- The tie break prefers the first move to the second. -/
def Precedes (tie : TieBreak) (move move' : Move) : Prop := tie.rank move < tie.rank move'

instance (tie : TieBreak) : DecidableRel tie.Precedes :=
  fun move move' => inferInstanceAs (Decidable (tie.rank move < tie.rank move'))

/-- Both tie breaks prefer deletions to insertions. -/
theorem delete_precedes_insert (tie : TieBreak) : tie.Precedes .delete .insert := by
  cases tie <;> decide

end TieBreak

end TreeDiff
