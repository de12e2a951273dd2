import Argumentation.Framework.Basic
import Argumentation.Patch
import Argumentation.Program.Encoding
import Argumentation.Session.Apply
import Argumentation.Solver.Setting

/-!
# The dynamic solver

A framework whose elements come and go. The solver remembers every element that was ever added;
which of them are active is told by the flags of its session. Disabling an argument disables the
attacks around it, and an attack may be enabled only between active arguments, so active attacks
always join active arguments. A refused operation leaves the solver as it was.
-/

namespace Argumentation

/-- A solver for the admissible sets of a changing framework. -/
structure DynamicSolver (α : Type) where
  /-- All the elements ever added. -/
  framework : Framework α := {}
  session : Session α := {}

namespace DynamicSolver

variable {α : Type} [DecidableEq α]

/-- The outcome of an operation: its result or its error, and the solver afterwards. -/
abbrev Outcome (α β : Type) := Except (Error α) β × DynamicSolver α

/-- A solver without elements. -/
def empty : DynamicSolver α := {}

/-- Whether an argument was added. -/
def hasArgument (solver : DynamicSolver α) (label : α) : Bool :=
  solver.framework.arguments.contains label

/-- Whether an attack was added. -/
def hasAttack (solver : DynamicSolver α) (attacker attacked : α) : Bool :=
  solver.framework.hasAttack attacker attacked

/-- Refuses an attack that was never added; unknown arguments are reported first. -/
def checkKnownAttack (solver : DynamicSolver α) (attacker attacked : α) :
    Except (Error α) Unit := do
  let _ ← solver.framework.arguments.find attacker
  let _ ← solver.framework.arguments.find attacked
  if solver.hasAttack attacker attacked then .ok ()
  else .error (.unknownElement (.attack attacker attacked))

/-- Refuses an argument that is not active. -/
def checkActive (solver : DynamicSolver α) (label : α) : Except (Error α) Unit := do
  if ← solver.session.flag (.argument label) then .ok () else .error (.inactiveArgument label)

/-- Refuses an attack that has an end that is not active. -/
def checkActiveEnds (solver : DynamicSolver α) (attacker attacked : α) :
    Except (Error α) Unit := do
  solver.checkActive attacker
  solver.checkActive attacked

/-- Whether a known argument is active. -/
def isActiveArgument (solver : DynamicSolver α) (label : α) : Except (Error α) Bool := do
  let _ ← solver.framework.arguments.find label
  solver.session.flag (.argument label)

/-- Whether a known attack is active. -/
def isActiveAttack (solver : DynamicSolver α) (attacker attacked : α) :
    Except (Error α) Bool := do
  solver.checkKnownAttack attacker attacked
  solver.session.flag (.attack attacker attacked)

/-- The framework of the active elements, in the order in which they were first added. -/
def activeFramework (solver : DynamicSolver α) : Except (Error α) (Framework α) := do
  let withArguments ← solver.framework.arguments.labels.foldlM (fun active label => do
    if ← solver.isActiveArgument label then active.addArgument label else .ok active) {}
  solver.framework.attackList.foldlM (fun active attack => do
    if ← solver.isActiveAttack attack.1 attack.2 then active.addAttack attack.1 attack.2
    else .ok active) withArguments

variable [Label α]

/-- Sets the flags of some elements. -/
def setFlags (solver : DynamicSolver α) (value : Bool) (elements : List (Element α)) :
    Outcome α Unit :=
  let (result, session) := solver.session.setFlags value elements
  (result, { solver with session })

/-- Applies the batch of a new element and makes the element active. -/
def install (solver : DynamicSolver α) (batch : Batch α) : Outcome α Unit :=
  match solver.session.apply batch with
  | (.error error, session) => (.error error, { solver with session })
  | (.ok _, session) => setFlags { solver with session } true [batch.element]

/-- Adds an argument, which is active. -/
def newArgument (solver : DynamicSolver α) (label : α) : Outcome α Unit :=
  let prepared := do
    let batch ← Encoding.argumentBatch label
    let framework ← solver.framework.addArgument label
    Except.ok (batch, framework)
  match prepared with
  | .error error => (.error error, solver)
  | .ok (batch, framework) => install { solver with framework } batch

/-- Makes a known argument active; the attacks around it stay as they are. -/
def enableArgument (solver : DynamicSolver α) (label : α) : Outcome α Unit :=
  match solver.framework.arguments.find label with
  | .error error => (.error error, solver)
  | .ok _ => solver.setFlags true [.argument label]

/-- The attacks around an argument: those that leave it, then those that reach it. -/
def attacksAround (solver : DynamicSolver α) (argument : Argument α) : List (Element α) :=
  (solver.framework.attacksFrom argument ++ solver.framework.attacksTo argument).map
    fun attack => .attack attack.1 attack.2

/-- Makes a known argument and all the attacks around it inactive. -/
def disableArgument (solver : DynamicSolver α) (label : α) : Outcome α Unit :=
  match solver.framework.arguments.find label with
  | .error error => (.error error, solver)
  | .ok argument => solver.setFlags false (solver.attacksAround argument ++ [.argument label])

/-- Adds an attack between active arguments; it is active. -/
def newAttack (solver : DynamicSolver α) (attacker attacked : α) : Outcome α Unit :=
  let prepared := do
    let _ ← solver.framework.arguments.find attacker
    let _ ← solver.framework.arguments.find attacked
    if solver.hasAttack attacker attacked then
      .error (.duplicateAttack attacker attacked)
    solver.checkActiveEnds attacker attacked
    let batch ← Encoding.attackBatch attacker attacked
    let framework ← solver.framework.addAttack attacker attacked
    Except.ok (batch, framework)
  match prepared with
  | .error error => (.error error, solver)
  | .ok (batch, framework) => install { solver with framework } batch

/-- Makes a known attack between active arguments active. -/
def enableAttack (solver : DynamicSolver α) (attacker attacked : α) : Outcome α Unit :=
  let checked := do
    solver.checkKnownAttack attacker attacked
    solver.checkActiveEnds attacker attacked
  match checked with
  | .error error => (.error error, solver)
  | .ok _ => solver.setFlags true [.attack attacker attacked]

/-- Makes a known attack inactive. -/
def disableAttack (solver : DynamicSolver α) (attacker attacked : α) : Outcome α Unit :=
  match solver.checkKnownAttack attacker attacked with
  | .error error => (.error error, solver)
  | .ok _ => solver.setFlags false [.attack attacker attacked]

/-- Applies a patch. -/
def applyPatch (solver : DynamicSolver α) : Patch α -> Outcome α Unit
  | .enable (.argument label) =>
    if solver.hasArgument label then solver.enableArgument label else solver.newArgument label
  | .disable (.argument label) => solver.disableArgument label
  | .enable (.attack attacker attacked) =>
    if solver.hasAttack attacker attacked then solver.enableAttack attacker attacked
    else solver.newAttack attacker attacked
  | .disable (.attack attacker attacked) => solver.disableAttack attacker attacked

/-- Applies patches in order, up to the first refusal. -/
def applyPatches (solver : DynamicSolver α) : List (Patch α) -> Outcome α Unit
  | [] => (.ok (), solver)
  | patch :: rest =>
    match solver.applyPatch patch with
    | (.ok _, solver) => applyPatches solver rest
    | (.error error, solver) => (.error error, solver)

/-- Adds all the elements of a framework, arguments first, up to the first refusal. -/
def load (solver : DynamicSolver α) (framework : Framework α) : Outcome α Unit :=
  let arguments := framework.arguments.labels.map fun label => Element.argument label
  let attacks := framework.attackList.map fun attack => Element.attack attack.1 attack.2
  go solver (arguments ++ attacks)
where
  /-- Adds elements one after the other. -/
  go (solver : DynamicSolver α) : List (Element α) -> Outcome α Unit
    | [] => (.ok (), solver)
    | element :: rest =>
      let added := match element with
        | .argument label => solver.newArgument label
        | .attack attacker attacked => solver.newAttack attacker attacked
      match added with
      | (.ok _, solver) => go solver rest
      | (.error error, solver) => (.error error, solver)

/-- The note left when an enumeration starts. -/
def enumerationNote (solver : DynamicSolver α) : String :=
  "enumerating admissible extensions (" ++ toString solver.framework.argumentCount
    ++ " arguments and " ++ toString solver.framework.attackCount ++ " attacks known)"

/-- All the admissible sets of the active framework. -/
def enumerate (setting : Setting) (solver : DynamicSolver α) :
    Except (Failure α) (List (Extension α)) × DynamicSolver α :=
  let noted := solver.session.note .info solver.enumerationNote
  let (result, session) := setting.enumerate noted
  (result, { solver with session })

/-- The number of admissible sets of the active framework. -/
def count (setting : Setting) (solver : DynamicSolver α) :
    Except (Failure α) Nat × DynamicSolver α :=
  let (result, solver) := solver.enumerate setting
  (result.map List.length, solver)

omit [Label α] in
/-- One admissible set of the active framework. -/
def computeOne (setting : Setting) (solver : DynamicSolver α) :
    Outcome α (Option (Extension α)) :=
  let (result, session) := solver.session.findModel setting.engine []
  (result, { solver with session })

omit [Label α] in
/-- Whether some admissible set of the active framework has the argument. An inactive argument is
in none. -/
def isAccepted (setting : Setting) (solver : DynamicSolver α) (label : α) : Outcome α Bool :=
  match solver.isActiveArgument label with
  | .error error => (.error error, solver)
  | .ok false => (.ok false, solver)
  | .ok true =>
    let (result, session) := solver.session.findModel setting.engine [.inside label]
    (result.map Option.isSome, { solver with session })

end DynamicSolver

end Argumentation
