import Argumentation.CommandLine.Solve

/-!
# The demonstration

A fixed sequence of updates with the extensions that are expected after each step.
-/

namespace Argumentation.CommandLine.Demo

/-- Patches, and the extensions expected after them in printing order. -/
structure Step where
  patches : List (Patch String)
  expected : List (Extension String)

/-- The steps: an argument defeats another one, then is defeated by a third one. -/
def steps : List Step :=
  [⟨[], [[]]⟩,
    ⟨[.enable (.argument "a"), .enable (.argument "b"), .enable (.attack "a" "b")],
      [[], ["a"]]⟩,
    ⟨[.enable (.argument "c")], [[], ["a"], ["c"], ["a", "c"]]⟩,
    ⟨[.enable (.attack "c" "a")], [[], ["c"], ["b", "c"]]⟩]

/-- The written forms of some extensions on one line. -/
def listText (extensions : List (Extension String)) : String :=
  String.intercalate " " (extensions.map Extension.text)

/-- What a step does, in one line. -/
def description (step : Step) : String :=
  if step.patches.isEmpty then "empty framework"
  else String.intercalate " " (step.patches.map Patch.text)

/-- Carries out a step and compares the outcome with the expected one. -/
def runStep (setting : Setting) (number : Nat) (step : Step) (solver : DynamicSolver String) :
    Run (DynamicSolver String) :=
  let activity := Activity.replayingDemo number
  do
    let solver ← (applyPatches solver step.patches).within activity
    let (extensions, solver) ← ask solver activity (solver.enumerate setting)
    let computed := Extension.sorted extensions
    Run.print ("step " ++ toString number ++ ": " ++ description step ++ "\n")
    Run.print ("  expected: " ++ listText step.expected ++ "\n")
    Run.print ("  computed: " ++ listText computed ++ "\n")
    if computed.map Extension.text = step.expected.map Extension.text then pure solver
    else (Run.fail (.ofText .unexpectedOutcome)).within activity

/-- Carries out steps, the first of which has the given number. -/
def runSteps (setting : Setting) : Nat -> DynamicSolver String -> List Step -> Run Unit
  | _, _, [] => pure ()
  | number, solver, step :: rest => do
    let solver ← runStep setting number step solver
    runSteps setting (number + 1) solver rest

/-- The command. -/
def run (environment : Environment) : Run Unit :=
  runSteps { engine := environment.engine, clock := environment.clock } 1 .empty steps

end Argumentation.CommandLine.Demo
