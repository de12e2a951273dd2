import Argumentation.Journal
import Argumentation.Report

/-!
# Runs

A run is what a command lets the user see, in order, and either a result or the reason why it
stopped. What was shown before a stop stays shown.
-/

namespace Argumentation.CommandLine

/-- Something that the user sees. -/
inductive Output where
  /-- A line of the log. -/
  | log (note : Note)
  /-- Text that is part of the answer. -/
  | print (text : String)
  deriving DecidableEq

/-- Why a command stops before its end. -/
inductive Stop where
  | failed (report : Report)
  /-- A time limit that no clock can show. -/
  | deadlineOverflow
  /-- The engine never ends an enumeration. -/
  | endless

/-- Outputs, then a result or the reason for a stop. -/
structure Run (β : Type) where
  outputs : List Output
  result : Except Stop β

namespace Run

variable {β γ : Type}

/-- Goes on after a run with what its result leads to. -/
def andThen (run : Run β) (next : β -> Run γ) : Run γ :=
  match run.result with
  | .ok value => ⟨run.outputs ++ (next value).outputs, (next value).result⟩
  | .error stop => ⟨run.outputs, .error stop⟩

instance : Monad Run where
  pure value := ⟨[], .ok value⟩
  bind := andThen

/-- Shows something. -/
def emit (outputs : List Output) : Run Unit := ⟨outputs, .ok ()⟩

/-- Leaves a line in the log. -/
def log (level : Level) (text : String) : Run Unit := emit [.log ⟨level, text⟩]

/-- Prints a text. -/
def print (text : String) : Run Unit := emit [.print text]

/-- Stops with a report. -/
def fail (report : Report) : Run β := ⟨[], .error (.failed report)⟩

/-- The result of a computation that may fail. -/
def ofExcept : Except Report β -> Run β
  | .ok value => pure value
  | .error report => fail report

/-- Shows some log lines, then gives a result that may be an error of an activity. -/
def reporting (notes : List Note) (activity : Activity) (result : Except (Error String) β) :
    Run β :=
  ⟨notes.map .log, result.mapError fun error => .failed ((Report.ofError error).within activity)⟩

/-- Adds an activity to the report of a run that fails. -/
def within (activity : Activity) (run : Run β) : Run β :=
  { run with
    result := run.result.mapError fun
      | .failed report => .failed (report.within activity)
      | stop => stop }

end Run

end Argumentation.CommandLine
