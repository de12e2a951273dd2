import Argumentation.Framework.Basic
import Argumentation.Program.Encoding
import Argumentation.Session.Apply
import Argumentation.Solver.Setting

/-!
# Solving from scratch

A fixed framework is compiled as a whole, arguments first, into a new session with all flags true,
and the session answers one query. Each answer comes with the session that gave it.
-/

namespace Argumentation.FromScratch

variable {α : Type} [DecidableEq α] [Label α]

/-- The elements of a framework, arguments first. -/
def elements (framework : Framework α) : List (Element α) :=
  framework.arguments.labels.map .argument
    ++ framework.attackList.map fun attack => .attack attack.1 attack.2

/-- Compiles and applies the batches of some elements in order, up to the first refusal. -/
def applyAll (session : Session α) : List (Element α) -> Except (Error α) Unit × Session α
  | [] => (.ok (), session)
  | element :: rest =>
    match Encoding.batch element with
    | .error error => (.error error, session)
    | .ok batch =>
      match session.apply batch with
      | (.ok _, session) => applyAll session rest
      | (.error error, session) => (.error error, session)

/-- The session of a framework. -/
def build (framework : Framework α) : Except (Error α) Unit × Session α :=
  let noted := Session.empty.note .info ("compiling a framework with "
    ++ toString framework.argumentCount ++ " arguments and "
    ++ toString framework.attackCount ++ " attacks")
  match applyAll noted (elements framework) with
  | (.ok _, session) => session.setFlags true (elements framework)
  | (.error error, session) => (.error error, session)

/-- All the admissible sets of a framework. -/
def enumerate (setting : Setting) (framework : Framework α) :
    Except (Failure α) (List (Extension α)) × Session α :=
  match build framework with
  | (.error error, session) => (.error (.error error), session)
  | (.ok _, session) => setting.enumerate session

/-- The number of admissible sets of a framework. -/
def count (setting : Setting) (framework : Framework α) :
    Except (Failure α) Nat × Session α :=
  let (result, session) := enumerate setting framework
  (result.map List.length, session)

/-- One admissible set of a framework. -/
def computeOne (setting : Setting) (framework : Framework α) :
    Except (Error α) (Option (Extension α)) × Session α :=
  match build framework with
  | (.error error, session) => (.error error, session)
  | (.ok _, session) => session.findModel setting.engine []

/-- Whether some admissible set of a framework has the argument, which must be defined. -/
def isAccepted (setting : Setting) (framework : Framework α) (label : α) :
    Except (Error α) Bool × Session α :=
  match framework.arguments.find label with
  | .error error => (.error error, Session.empty)
  | .ok _ =>
    match build framework with
    | (.error error, session) => (.error error, session)
    | (.ok _, session) =>
      let (result, session) := session.findModel setting.engine [.inside label]
      (result.map Option.isSome, session)

end Argumentation.FromScratch
