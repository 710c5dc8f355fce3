import TreeDiff.Rendering.Print

/-!
# Sessions of printing

A session prints one thing after the other to one sink. A step that fails does not end the session:
the next step meets the sink as the failed one has left it.

* `Printing`: a step, which prints a diff or the diffs of a list, with or without colours.
* `Printing.print`: what a step does.
* `Printed`: what becomes of a step. It has succeeded or failed, and left a sink in either case.
* `session`: what becomes of the steps of a session.
-/

namespace TreeDiff.Rendering

/-- A step of a session. -/
inductive Printing where
  /-- Prints a diff. -/
  | diff (coloured : Bool) (d : Diff String)
  /-- Prints the diffs of a list. -/
  | script (coloured : Bool) (ds : List (Diff String))

/-- Does what a step is to do. -/
def Printing.print : Printing → Writing Unit
  | .diff coloured d => printDiff coloured d
  | .script coloured ds => printScript coloured ds

/-- What becomes of a step. -/
structure Printed where
  /-- The failure, if the step has failed. -/
  failure : Option SinkError
  /-- The sink after the step. -/
  sink : Sink

/-- Prints a step to a sink. -/
def Printing.printed (step : Printing) (sink : Sink) : Printed :=
  match step.print.run sink with
  | .ok _ after => ⟨none, after⟩
  | .error failure after => ⟨some failure, after⟩

/-- What becomes of steps one after the other, each on the sink that the one before has left. -/
def session (sink : Sink) : List Printing → List Printed
  | [] => []
  | step :: steps => step.printed sink :: session (step.printed sink).sink steps

end TreeDiff.Rendering
