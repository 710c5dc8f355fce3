import TreeDiff.Diff.Kinds
import TreeDiff.Rendering.Colour
import TreeDiff.Tree.Text

/-!
# Layouts

The text of a diff by recursion on the diff, without lines as values and without a list of what is
still to be rendered. What is done with the line of an edit, to colour it, is a parameter.

* `Diff.layout`: the text of a diff at a depth.
* `Diff.layoutAll`: the texts of the diffs of a list at a depth, one after the other.
* `colouring`: the colours as that parameter, switched on or off.
-/

namespace TreeDiff

namespace Rendering

/-- A number of blanks. -/
def blanks (n : Nat) : String := String.ofList (List.replicate n ' ')

/-- A text in a colour if colours are on, and as it is if they are off. -/
def colouring (coloured : Bool) (colour : Colour) (text : String) : String :=
  if coloured then colour.paint text else text

end Rendering

namespace Diff

open Rendering

mutual

/-- The text of a diff at a depth. An edit is one line, passed through `wrap`. A matched node is one
line with the text of its new side if there is no edit below it, and otherwise a line with its label
over the texts of its children. -/
def layout (wrap : Colour → String → String) (depth : Nat) : Diff String → String
  | edit (.insert new) => wrap .green (blanks (2 * depth) ++ "+ " ++ new.text) ++ "\n"
  | edit (.delete old) => wrap .red (blanks (2 * depth) ++ "- " ++ old.text) ++ "\n"
  | edit (.replace old new) =>
    wrap .yellow (blanks (2 * depth) ++ "~ " ++ old.text ++ " -> " ++ new.text) ++ "\n"
  | merge l ds =>
    if editsAll ds = [] then blanks (2 * depth + 2) ++ Tree.text (.node l (afterAll ds)) ++ "\n"
    else blanks (2 * depth + 2) ++ l ++ "\n" ++ layoutAll wrap (depth + 1) ds

/-- The texts of the diffs of a list at a depth. -/
def layoutAll (wrap : Colour → String → String) (depth : Nat) : List (Diff String) → String
  | [] => ""
  | d :: ds => layout wrap depth d ++ layoutAll wrap depth ds

end

end Diff

end TreeDiff
