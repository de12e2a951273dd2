import Argumentation.Session.Solving

/-!
# Settings

What a solver works with: the engine, an optional time limit for each enumeration, and the clock
that the limit is measured with.
-/

namespace Argumentation

/-- The settings of the queries of a solver. -/
structure Setting where
  engine : Sat.Engine
  /-- The time allowed to an enumeration, in seconds. -/
  timeout : Option Nat := none
  clock : Clock := fun _ => 0

namespace Setting

variable {α : Type} [DecidableEq α]

/-- The deadline of an enumeration that starts now, unless it is out of the clock's range. -/
def deadline? (setting : Setting) : Option Deadline :=
  match setting.timeout with
  | none => some Deadline.never
  | some seconds => Deadline.after? setting.clock seconds

/-- All the extensions of a session, before the deadline. -/
def enumerate (setting : Setting) (session : Session α) :
    Except (Failure α) (List (Extension α)) × Session α :=
  match setting.deadline? with
  | some deadline => session.solve setting.engine deadline
  | none => (.error .deadlineOverflow, session)

end Setting

end Argumentation
