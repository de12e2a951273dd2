import Argumentation.CommandLine.Demo

/-!
# The program

What the program does with the words of its command line: it carries out the command, shows the
outputs that the log threshold lets through, and ends with an exit code.
-/

namespace Argumentation.CommandLine

/-- The name and the version of the program. -/
def programVersion : String := "dynaf 0.1.0"

/-- Those who made the program. -/
def programAuthors : String := "The Dynaf developers"

/-- Carries out a command. -/
def execute (environment : Environment) (invocation : Invocation) : Run Unit :=
  match invocation.command with
  | .authors => Run.print (programVersion ++ "\n" ++ programAuthors ++ "\n")
  | .check => do
    let _ ← readInstance environment invocation.format ((invocation.value? .input).getD "")
    pure ()
  | .demo => Demo.run environment
  | .problems =>
    Run.print ("[" ++ String.intercalate "," (Problem.all.map Problem.text) ++ "]\n")
  | .solve => solve environment invocation

/-- The log lines that report a failure, from the outermost activity to the cause. -/
def failureLines (report : Report) : List Output :=
  match report.messages with
  | [] => []
  | first :: others =>
    .log ⟨.error, "an error occurred: " ++ first⟩
      :: others.map fun message => .log ⟨.error, "caused by: " ++ message⟩

/-- Whether an output is shown when the log is limited to a threshold. -/
def isShown (threshold : Nat) : Output -> Bool
  | .log note => note.level.rank <= threshold
  | .print _ => true

/-- What the program shows, and its exit code. -/
structure Conclusion where
  outputs : List Output
  exitCode : Nat
  deriving DecidableEq

/-- The conclusion of an invocation. A run that reaches neither a result nor a report exits as an
aborted one. -/
def conclude (environment : Environment) (invocation : Invocation) : Conclusion :=
  let run := execute environment invocation
  let shown := fun outputs : List Output => outputs.filter (isShown invocation.threshold)
  match run.result with
  | .ok _ => ⟨shown run.outputs, 0⟩
  | .error (.failed report) => ⟨shown (run.outputs ++ failureLines report), 1⟩
  | .error .deadlineOverflow | .error .endless => ⟨shown run.outputs, 101⟩

/-- What the program does with the words after its name. -/
def program (environment : Environment) (arguments : List String) : Request Conclusion :=
  match Invocation.read arguments with
  | .help => .help
  | .misuse => .misuse
  | .proceed invocation => .proceed (conclude environment invocation)

end Argumentation.CommandLine
