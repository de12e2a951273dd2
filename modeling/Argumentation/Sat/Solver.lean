import Argumentation.Sat.Engine
import Argumentation.Sat.Word

/-!
# An engine on its own

A solver collects clauses given as machine words and hands solving calls to its engine, which reads
narrowed words. Listeners are told of each call: all of them before it, with the size of the
instance, and all of them after it, with the verdict.
-/

namespace Argumentation.Sat

/-- What a listener is told. -/
inductive Announcement where
  | started (listener variableCount clauseCount assumptionCount : Nat)
  | ended (listener : Nat) (verdict : Verdict)

/-- The clauses and calls so far, as the engine read them, and the number of listeners. -/
structure Solver where
  transcript : Transcript := {}
  listeners : Nat := 0

namespace Solver

/-- Narrows the literals given as integers; one that has no narrow form refuses them all. -/
def narrowAll? (codes : List Int) : Option (List Literal) :=
  codes.mapM fun code => (WordLiteral.ofInt? code).bind WordLiteral.narrow?

/-- Registers one more listener. -/
def listen (solver : Solver) : Solver :=
  { solver with listeners := solver.listeners + 1 }

/-- Adds a clause, unless one of its literals is refused. -/
def addClause? (solver : Solver) (codes : List Int) : Option Solver :=
  (narrowAll? codes).map fun clause =>
    { solver with
      transcript := { solver.transcript with clauses := solver.transcript.clauses ++ [clause] } }

/-- The greatest variable in the clauses and in the assumptions of past calls. -/
def variableCount (solver : Solver) : Nat :=
  solver.transcript.variableCount

/-- What the listeners are told of a call. -/
def announcements (solver : Solver) (assumptionCount : Nat) (verdict : Verdict) :
    List Announcement :=
  let listeners := List.range solver.listeners
  listeners.map (fun listener =>
      .started listener solver.variableCount solver.transcript.clauses.length assumptionCount)
    ++ listeners.map fun listener => .ended listener verdict

/-- Asks an engine for a verdict under assumptions, unless one of them is refused. -/
def solve? (engine : Engine) (solver : Solver) (codes : List Int) :
    Option (Verdict × List Announcement × Solver) :=
  (narrowAll? codes).map fun assumptions =>
    let verdict := engine.answer solver.transcript assumptions
    (verdict, solver.announcements assumptions.length verdict,
      { solver with
        transcript :=
          { solver.transcript with calls := solver.transcript.calls ++ [assumptions] } })

end Solver

end Argumentation.Sat
