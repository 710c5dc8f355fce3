/-!
# Sinks

A sink takes the bytes of texts until it is full. A text that fits only in part is taken as far as
it fits, and the writing fails.

* `Sink`: the bytes taken so far and, if there is a limit, the number that still fits.
* `Writing`: computations that write to a sink. What was taken before a failure stays taken.
* `Sink.write`: writes a text.
* `Sink.text`: the bytes taken so far as a text.
-/

namespace TreeDiff.Rendering

/-- The bytes taken so far and, if there is a limit, the number that still fits. -/
structure Sink where
  taken : ByteArray
  room : Option Nat

/-- The failure to write to a sink. -/
inductive SinkError
  /-- A text does not fit into what is left of the room. -/
  | full
  deriving DecidableEq

/-- The text of a failure. -/
def SinkError.message : SinkError → String
  | .full => "writer full"

/-- Computations that write to a sink. -/
abbrev Writing (α : Type) : Type := EStateM SinkError Sink α

namespace Sink

/-- The sink that has taken nothing. -/
def empty (limit : Option Nat) : Sink := ⟨ByteArray.empty, limit⟩

/-- Writes a text, as far as there is room for it. -/
def write (text : String) : Writing Unit := fun sink =>
  let bytes := text.toUTF8
  match sink.room with
  | none => .ok () ⟨sink.taken ++ bytes, none⟩
  | some room =>
    if bytes.size ≤ room then .ok () ⟨sink.taken ++ bytes, some (room - bytes.size)⟩
    else .error .full ⟨sink.taken ++ bytes.extract 0 room, some 0⟩

/-- The text of the bytes without the last `cut` of them, which are written as one replacement
character; none if the other bytes end within a character. -/
def decodeWithout (bytes : ByteArray) (cut : Nat) : Option String := do
  let s ← String.fromUTF8? (bytes.extract 0 (bytes.size - cut))
  return if cut = 0 then s else s.push '\uFFFD'

/-- The bytes taken so far as a text. A character of which only the first bytes fitted is written as
a replacement character. -/
def text (sink : Sink) : String :=
  ([0, 1, 2, 3].findSome? (decodeWithout sink.taken)).getD ""

end Sink

end TreeDiff.Rendering
