import TreeDiff.Diff.Kinds
import TreeDiff.Rendering.Colour
import TreeDiff.Tree.Text

/-!
# The lines of a rendering

A diff is rendered one node a line, indented by two blanks for every matched node above it. An edit
has its symbol in front and covers whole trees; a matched node without an edit below it is one line
with the text of the tree, any other one a line with its label, followed by the lines of its
children.

* `Line`: a line, which `Line.text` writes with or without colour. Only edits are coloured.
* `Diff.lines`: the lines of a list of diffs, each with its depth, by a list of the diffs still to
  be rendered.
* `Diff.outline`: the lines of a diff by recursion. `Diff.lines_eq` says that the two agree.
-/

namespace TreeDiff

namespace Rendering

/-- A line of a rendering, at a depth. -/
inductive Line where
  /-- An edit of whole trees. -/
  | edit (depth : Nat) (e : Edit (Tree String))
  /-- A matched tree or node, given by its text. -/
  | matched (depth : Nat) (text : String)
  deriving DecidableEq

/-- The blanks in front of a line. -/
def indent (depth : Nat) : String := String.ofList (List.replicate (2 * depth) ' ')

/-- The text of an edit at a depth. -/
def editText (depth : Nat) (e : Edit (Tree String)) : String :=
  indent depth ++ String.singleton e.symbol ++ " " ++ e.valuesWith Tree.text

/-- The text of a line, with its end. -/
def Line.text (coloured : Bool) : Line → String
  | .edit depth e =>
    let plain := editText depth e
    (if coloured then (Colour.ofKind e.kind).paint plain else plain) ++ "\n"
  | .matched depth text => indent depth ++ "  " ++ text ++ "\n"

/-- The line of a matched node without an edit below it: the text of its new side. -/
def unchangedLine (depth : Nat) (d : Diff String) : List Line :=
  d.after?.toList.map fun t => .matched depth t.text

end Rendering

namespace Diff

open Rendering

/-- The diffs of a list, each at the depth `depth`. -/
def atDepth (depth : Nat) (ds : List (Diff String)) : List (Nat × Diff String) :=
  ds.map fun d => (depth, d)

theorem map_snd_atDepth (depth : Nat) (ds : List (Diff String)) :
    (atDepth depth ds).map Prod.snd = ds := by
  simp [atDepth, Function.comp_def]

/-- The lines of the diffs in `pending`, each at its depth. -/
def lines : (pending : List (Nat × Diff String)) → List Line
  | [] => []
  | (depth, edit e) :: rest => .edit depth e :: lines rest
  | (depth, merge l ds) :: rest =>
    if (merge l ds).isUnchanged then unchangedLine depth (merge l ds) ++ lines rest
    else .matched depth l :: lines (atDepth (depth + 1) ds ++ rest)
termination_by pending => nodesAll (pending.map Prod.snd)
decreasing_by
  · simp only [List.map_cons, nodesAll_cons, nodes_edit]; omega
  · simp only [List.map_cons, nodesAll_cons, nodes_merge]; omega
  · simp only [List.map_append, map_snd_atDepth, List.map_cons, nodesAll_append, nodesAll_cons,
      nodes_merge]
    omega

mutual

/-- The lines of a diff at a depth. -/
def outline (depth : Nat) : Diff String → List Line
  | edit e => [.edit depth e]
  | merge l ds =>
    if (merge l ds).isUnchanged then unchangedLine depth (merge l ds)
    else .matched depth l :: outlineAll (depth + 1) ds

/-- The lines of the diffs of a list at a depth. -/
def outlineAll (depth : Nat) : List (Diff String) → List Line
  | [] => []
  | d :: ds => outline depth d ++ outlineAll depth ds

end

theorem outlineAll_eq_flatMap (depth : Nat) (ds : List (Diff String)) :
    outlineAll depth ds = ds.flatMap (outline depth) := by
  induction ds with
  | nil => rw [outlineAll, List.flatMap_nil]
  | cons d ds ih => rw [outlineAll, ih, List.flatMap_cons]

/-- The pending diffs are rendered one after the other, as by recursion. -/
theorem lines_eq (pending : List (Nat × Diff String)) :
    lines pending = pending.flatMap fun p => outline p.1 p.2 := by
  induction pending using lines.induct with
  | case1 => simp [lines]
  | case2 depth e rest ih => simp [lines, outline, ih]
  | case3 depth l ds rest h ih => simp [lines, outline, h, ih]
  | case4 depth l ds rest h ih =>
    rw [lines, if_neg h, ih]
    simp [outline, h, outlineAll_eq_flatMap, atDepth, List.flatMap_map]

end Diff

end TreeDiff
