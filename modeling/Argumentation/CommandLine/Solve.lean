import Argumentation.CommandLine.Invocation
import Argumentation.CommandLine.Run
import Argumentation.Format.Answer
import Argumentation.Problem
import Argumentation.Solver.Dynamic
import Argumentation.Text.Numeral

/-!
# The solve command

Reads an instance, answers a query on it, then answers the query again after each line of updates.
The answers given before a faulty line stay given.
-/

namespace Argumentation.CommandLine

/-- What a command works in: the lines of the files, the lines of the standard input, the engine
and the clock. -/
structure Environment where
  file : String -> Except Text.StreamFault (List Text.Line)
  input : List Text.Line
  engine : Sat.Engine
  clock : Clock

/-- Opens a file. -/
def openFile (environment : Environment) (path : String) : Run (List Text.Line) :=
  Run.ofExcept <| during (.openingFile path) <|
    (environment.file path).mapError Report.ofStream

/-- Reads an instance file. Warnings go to the log. -/
def readInstance (environment : Environment) (format : InstanceFormat) (path : String) :
    Run (Framework String) := do
  let lines ← openFile environment path
  let reading := format.read lines
  Run.emit <| reading.warnings.map fun warning =>
    .log ⟨.warn, "at line " ++ toString warning.line ++ ": " ++ warning.message⟩
  let framework ← Run.ofExcept reading.result
  Run.log .info ("the argumentation framework has " ++ toString framework.argumentCount
    ++ " argument(s) and " ++ toString framework.attackCount ++ " attack(s)")
  pure framework

/-- What is asked again and again while the framework changes. -/
structure Task where
  query : Query
  argument : Option String
  format : InstanceFormat
  setting : Setting

/-- The notes that a solver has left since an earlier state of it. -/
def notesSince (before after : DynamicSolver String) : List Note :=
  Journal.newNotes true (after.session.journal.length - before.session.journal.length)
    after.session.journal

/-- Why a run stops when a query fails. -/
def stopOf (activity : Activity) : Failure String -> Stop
  | .error error => .failed ((Report.ofError error).within activity)
  | .deadlineOverflow => .deadlineOverflow
  | .endless => .endless

/-- Asks a query and goes on with the solver that answered. -/
def ask {β : Type} (solver : DynamicSolver String) (activity : Activity)
    (asked : Except (Failure String) β × DynamicSolver String) :
    Run (β × DynamicSolver String) :=
  ⟨(notesSince solver asked.2).map .log,
    (asked.1.mapError (stopOf activity)).map fun result => (result, asked.2)⟩

/-- Makes an error of a solver a failure of a query. -/
def queryFailure {β : Type} (asked : Except (Error String) β × DynamicSolver String) :
    Except (Failure String) β × DynamicSolver String :=
  (asked.1.mapError .error, asked.2)

/-- Prints an answer. -/
def printAnswer (answer : Format.Answer String) : Run Unit :=
  Run.print answer.line

/-- Answers the query of a task. -/
def answer (task : Task) (solver : DynamicSolver String) : Run (DynamicSolver String) :=
  match task.query with
  | .count => do
    let (count, solver) ← ask solver .countingExtensions (solver.count task.setting)
    printAnswer (.count count)
    pure solver
  | .accept =>
    match task.argument with
    | none => Run.fail (.ofText (.missingArgument task.query.code))
    | some label => do
      let (accepted, solver) ← ask solver (.checkingAcceptance label)
        (queryFailure (solver.isAccepted task.setting label))
      printAnswer (.status accepted)
      pure solver
  | .enumerate => do
    let (extensions, solver) ← ask solver .enumeratingExtensions (solver.enumerate task.setting)
    Run.log .info ("found " ++ toString extensions.length ++ " extension(s)")
    Run.emit <| (Extension.sorted extensions).map fun extension =>
      .print (Format.Answer.extension extension).line
    pure solver
  | .computeOne => do
    let (extension, solver) ← ask solver .computingExtension
      (queryFailure (solver.computeOne task.setting))
    printAnswer <| match extension with
      | some labels => .extension labels
      | none => .noExtension
    pure solver

/-- Applies patches one after the other. Each is announced in the log. -/
def applyPatches (solver : DynamicSolver String) : List (Patch String) ->
    Run (DynamicSolver String)
  | [] => pure solver
  | patch :: rest => do
    Run.log .info ("applying update " ++ patch.text)
    let (result, next) := solver.applyPatch patch
    Run.emit ((notesSince solver next).map .log)
    Run.ofExcept (result.mapError Report.ofError)
    applyPatches next rest

/-- Carries out one update line and answers the query again. -/
def processLine (task : Task) (solver : DynamicSolver String) (line : String) :
    Run (DynamicSolver String) := do
  let patches ← Run.ofExcept (task.format.readUpdate line)
  let solver ← applyPatches solver patches
  answer task solver

/-- Carries out update lines, the first of which has the given number. Blank lines are skipped. -/
def processLines (task : Task) : Nat -> DynamicSolver String -> List Text.Line -> Run Unit
  | _, _, [] => pure ()
  | number, _, .error fault :: _ =>
    (Run.fail (.ofStream fault)).within (.processingUpdate number)
  | number, solver, .ok line :: rest =>
    if line.toList.all Text.isBlank then processLines task (number + 1) solver rest
    else do
      let solver ← (processLine task solver line).within (.processingUpdate number)
      processLines task (number + 1) solver rest

/-- Checks that an argument is given exactly when the query needs one. A useless argument is only
worth a warning. -/
def checkArgument (query : Query) (argument : Option String) : Run Unit :=
  match query.needsArgument, argument with
  | true, none => Run.fail (.ofText (.missingArgument query.code))
  | false, some _ =>
    Run.log .warn ("unexpected argument on the command line (useless for query "
      ++ query.code ++ ")")
  | _, _ => pure ()

/-- The time allowed to each solving step. -/
def readTimeout : Option String -> Run (Option Nat)
  | none => pure none
  | some text => do
    let seconds ← Run.ofExcept <| during (.parsingTimeout text) <|
      (Text.readUnsigned text).mapError Report.ofText
    Run.log .info ("each solving step is limited to " ++ toString seconds ++ " second(s)")
    pure (some seconds)

/-- A solver that holds the elements of a framework. -/
def loadFramework (framework : Framework String) : Run (DynamicSolver String) := do
  let (result, solver) := DynamicSolver.empty.load framework
  Run.emit ((notesSince DynamicSolver.empty solver).map .log)
  Run.ofExcept <| during .loadingFramework (result.mapError Report.ofError)
  pure solver

/-- The command. -/
def solve (environment : Environment) (invocation : Invocation) : Run Unit := do
  let problem ← Run.ofExcept (Problem.read ((invocation.value? .problem).getD ""))
  let argument := invocation.value? .argument
  checkArgument problem.query argument
  let framework ←
    readInstance environment invocation.format ((invocation.value? .input).getD "")
  if let some label := argument then
    Run.ofExcept <| during .parsingArgument <|
      ((framework.arguments.find label).map fun _ => ()).mapError Report.ofError
  let timeout ← readTimeout (invocation.value? .timeout)
  let loaded ← loadFramework framework
  let setting : Setting := ⟨environment.engine, timeout, environment.clock⟩
  let task : Task := ⟨problem.query, argument, invocation.format, setting⟩
  let solver ← answer task loaded
  match invocation.value? .updates with
  | none => pure ()
  | some "-" => processLines task 1 solver environment.input
  | some path => do
    let lines ← openFile environment path
    processLines task 1 solver lines

end Argumentation.CommandLine
