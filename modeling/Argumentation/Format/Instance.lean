import Argumentation.Framework.Basic
import Argumentation.Report
import Argumentation.Text.Lines

/-!
# Instances

What the readers of instance files share: warnings, and the outcome of a reading. Warnings raised
before a failure are part of the outcome.
-/

namespace Argumentation.Format

/-- A remark about a line, which is counted from one. -/
structure Warning where
  line : Nat
  message : String
  deriving DecidableEq

/-- The framework that was read, or why there is none, and the warnings in text order. -/
structure Reading where
  result : Except Report (Framework String)
  warnings : List Warning

/-- The calls of numbered handlers, each with the number of the handler: a warning reaches all the
handlers before the next warning does. -/
def deliveries (handlers : Nat) (warnings : List Warning) : List (Nat × Warning) :=
  warnings.flatMap fun warning => (List.range handlers).map fun handler => (handler, warning)

/-- Reads the lines of a source one after the other. `step` handles the text of one line, given its
index, in a state that it updates; `finish` turns the last state into a framework. The first
failure ends the reading. -/
def readLines {State : Type}
    (step : Nat -> String -> State -> Except Report State × List Warning)
    (finish : State -> Except Report (Framework String)) :
    Nat -> State -> List Text.Line -> Reading
  | _, state, [] => ⟨finish state, []⟩
  | index, _, .error fault :: _ =>
    ⟨.error ((Report.ofStream fault).within (.readingLine index)), []⟩
  | index, state, .ok line :: rest =>
    match step index line state with
    | (.error report, warnings) => ⟨.error (report.within (.readingLine index)), warnings⟩
    | (.ok state, warnings) =>
      let reading := readLines step finish (index + 1) state rest
      { reading with warnings := warnings ++ reading.warnings }

/-- The result of an operation on frameworks, as the result of a reading step. -/
def refusable {β : Type} : Except (Error String) β -> Except Report β :=
  Except.mapError Report.ofError

end Argumentation.Format
