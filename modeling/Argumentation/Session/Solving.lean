import Argumentation.Session.Basic
import Argumentation.Session.Deadline

/-!
# Solving

An enumeration asks the engine for models one after the other. After each model it sends a clause
that excludes the extension just found, guarded by a selector of its own; however the enumeration
ends, the selector is taken out of use, so that nothing of it bears on later calls.

The deadline is checked before each call. Sound answers exclude one more set of visible arguments
each time, so an engine that goes on after that many answers never ends the enumeration.
-/

namespace Argumentation

/-- Why a query has no answer. -/
inductive Failure (α : Type) where
  | error (error : Error α)
  /-- The deadline cannot be represented. -/
  | deadlineOverflow
  /-- The engine keeps finding models that were excluded. -/
  | endless
  deriving DecidableEq

namespace Session

variable {α : Type} [DecidableEq α]

open Argumentation.Sat (Literal Engine Assignment)

/-- The literal that gives a flag its value. -/
def flagLiteral (flag : Flag α) : Literal :=
  ⟨flag.var, flag.value⟩

/-- What each call assumes: the current selectors, then the values of the flags in the order of
their declaration. -/
def assumptions (session : Session α) : List Literal :=
  session.selectors.members.map .pos ++ session.flags.reverse.map flagLiteral

/-- Asks the engine for a model. -/
def ask (session : Session α) (engine : Engine) (assumptions : List Literal) :
    Sat.Verdict × Session α :=
  let verdict := engine.answer session.journal.transcript assumptions
  (verdict, { session with journal := .call assumptions verdict :: session.journal })

/-- The extension of a model: the visible arguments whose membership is true. -/
def extension (session : Session α) (model : Assignment) : Extension α :=
  (session.shown.filter fun entry => model.valueOf entry.2 == some true).map (·.1)

/-- The clause that excludes the extension of a model as long as a selector is true. -/
def blockingClause (session : Session α) (selector : Nat) (model : Assignment) : Sat.Clause :=
  .neg selector :: session.shown.map fun entry => ⟨entry.2, model.valueOf entry.2 != some true⟩

/-- Collects extensions until the engine finds no more; `found` is their number so far, and at most
`calls` further calls are made. -/
def collect (engine : Engine) (deadline : Deadline) (selector : Nat)
    (assumptions : List Literal) : Nat -> Nat -> Session α ->
      Except (Failure α) (List (Extension α)) × Session α
  | 0, _, session => (.error .endless, session)
  | calls + 1, found, session =>
    if deadline found then (.error (.error (.solveTimeout found)), session)
    else
      match session.ask engine assumptions with
      | (.satisfiable model, session) =>
        let blocked := session.send (session.blockingClause selector model)
        let (others, session) :=
          collect engine deadline selector assumptions calls (found + 1) blocked
        (others.map (session.extension model :: ·), session)
      | (.unsatisfiable, session) => (.ok [], session)
      | (.unknown, session) => (.error (.error .engineFailure), session)

/-- A number of calls that is enough for every enumeration with this engine. -/
def callBound (session : Session α) (engine : Engine) : Nat :=
  engine.horizon + Nat.pow 2 session.shown.length + 1

/-- All the extensions of the program under the current flags. -/
def solve (session : Session α) (engine : Engine) (deadline : Deadline) :
    Except (Failure α) (List (Extension α)) × Session α :=
  let bound := session.callBound engine
  let (selector, started) := session.fresh
  let assumptions := started.assumptions ++ [.pos selector]
  let (result, finished) := collect engine deadline selector assumptions bound 0 started
  (result, finished.send [.neg selector])

/-- The positive literals of some atoms, or the first of them that the session has not seen. -/
def assumedLiterals (session : Session α) (atoms : List (Atom α)) :
    Except (Error α) (List Literal) :=
  atoms.mapM fun atom =>
    match session.varOf? atom with
    | some var => .ok (.pos var)
    | none => .error (.unknownElement atom)

/-- One extension of a model in which the given atoms hold, if there is such a model. -/
def findModel (session : Session α) (engine : Engine) (atoms : List (Atom α)) :
    Except (Error α) (Option (Extension α)) × Session α :=
  match session.assumedLiterals atoms with
  | .error error => (.error error, session)
  | .ok literals =>
    match session.ask engine (session.assumptions ++ literals) with
    | (.satisfiable model, session) => (.ok (some (session.extension model)), session)
    | (.unsatisfiable, session) => (.ok none, session)
    | (.unknown, session) => (.error .engineFailure, session)

end Session

end Argumentation
