import TreeDiff.Edit.Kind

/-!
# Colours of a terminal

A coloured text begins with the code that opens its colour and ends with the code that closes all
colours. A closing code inside the text would end the colour too early, so the opening code is
repeated after each of them.

* `Colour.opening`, `closing`: the codes.
* `reopen`: a text with the opening code repeated after every closing code.
* `Colour.paint`: a text in a colour.
-/

namespace TreeDiff.Rendering

/-- The colours of edits. -/
inductive Colour
  | red
  | green
  | yellow
  deriving DecidableEq

/-- The code that closes all colours. -/
def closing : List Char := ['\x1b', '[', '0', 'm']

/-- The code that opens a colour. -/
def Colour.opening : Colour → List Char
  | .red => ['\x1b', '[', '3', '1', 'm']
  | .green => ['\x1b', '[', '3', '2', 'm']
  | .yellow => ['\x1b', '[', '3', '3', 'm']

/-- The text with `code` repeated after every closing code. -/
def reopen (code : List Char) : List Char → List Char
  | [] => []
  | '\x1b' :: '[' :: '0' :: 'm' :: cs => closing ++ code ++ reopen code cs
  | c :: cs => c :: reopen code cs

/-- The text in a colour. -/
def Colour.paint (colour : Colour) (text : String) : String :=
  String.ofList (colour.opening ++ reopen colour.opening text.toList ++ closing)

/-- The colour of a kind of edits. -/
def Colour.ofKind : EditKind → Colour
  | .insert => .green
  | .delete => .red
  | .replace => .yellow

end TreeDiff.Rendering
