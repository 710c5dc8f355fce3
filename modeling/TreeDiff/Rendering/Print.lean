import TreeDiff.Rendering.Line
import TreeDiff.Rendering.Sink

/-!
# Printing diffs

* `printDiff`, `printScript`: write the lines of a diff, and of the diffs of a list one after the
  other, to a sink. The first failure ends the printing.
* `render`: the text of a list of diffs, which is what they print to a sink without a limit.
-/

namespace TreeDiff.Rendering

/-- Writes lines one after the other. -/
def writeLines (coloured : Bool) (lines : List Line) : Writing Unit :=
  lines.forM fun line => Sink.write (line.text coloured)

/-- Writes the lines of a diff. -/
def printDiff (coloured : Bool) (d : Diff String) : Writing Unit :=
  writeLines coloured (Diff.lines [(0, d)])

/-- Writes the lines of the diffs of a list, one diff after the other. -/
def printScript (coloured : Bool) (ds : List (Diff String)) : Writing Unit :=
  ds.forM (printDiff coloured)

/-- The text of a list of diffs. -/
def render (coloured : Bool) (ds : List (Diff String)) : String :=
  String.join (ds.flatMap fun d => (Diff.lines [(0, d)]).map (Line.text coloured))

end TreeDiff.Rendering
