import Argumentation.Sat.Assignment

/-!
# Engines

An engine answers solving calls. All it may rely on is the transcript of what was sent to it: the
clauses and the assumptions of the earlier calls. So an engine is a function, and what holds for
every sound and complete engine holds whatever choices the engine makes.
-/

namespace Argumentation.Sat

/-- What an engine answers to a call. -/
inductive Verdict where
  | satisfiable (model : Assignment)
  | unsatisfiable
  | unknown
  deriving DecidableEq

/-- The short name of a verdict. -/
def Verdict.name : Verdict -> String
  | .satisfiable _ => "SAT"
  | .unsatisfiable => "UNSAT"
  | .unknown => "UNKNOWN"

/-- What was sent to an engine, in order. -/
structure Transcript where
  clauses : List Clause := []
  /-- The assumptions of each call. -/
  calls : List (List Literal) := []

/-- The greatest of the variables of some literals. -/
def greatestVariable (literals : List Literal) : Nat :=
  literals.foldl (fun greatest literal => max greatest literal.var) 0

/-- The greatest variable sent so far, zero at the start. -/
def Transcript.variableCount (transcript : Transcript) : Nat :=
  max (greatestVariable transcript.clauses.flatten) (greatestVariable transcript.calls.flatten)

/-- An engine. The first `horizon` answers of an engine may be arbitrary; an enumeration allows
for that many calls besides those that sound answers need. -/
structure Engine where
  answer : Transcript -> List Literal -> Verdict
  horizon : Nat := 0

namespace Engine

/-- A satisfiable answer comes with a model of the clauses and of the assumptions. -/
def Sound (engine : Engine) : Prop :=
  forall transcript assumptions model,
    engine.answer transcript assumptions = .satisfiable model ->
      (forall clause, clause ∈ transcript.clauses -> model.satisfies clause) ∧
        forall literal, literal ∈ assumptions -> model.makesTrue literal

/-- An engine always gives a verdict, and an unsatisfiable one only when no valuation makes the
clauses and the assumptions true. -/
def Complete (engine : Engine) : Prop :=
  forall transcript assumptions,
    engine.answer transcript assumptions ≠ .unknown ∧
      (engine.answer transcript assumptions = .unsatisfiable ->
        forall valuation : Nat -> Bool,
          ¬ ((forall clause, clause ∈ transcript.clauses -> clause.holds valuation) ∧
            forall literal, literal ∈ assumptions -> literal.holds valuation))

/-- The engine that gives prepared answers, one for each call, then finds no model any more. -/
def scripted (answers : List Verdict) : Engine where
  answer transcript _ := answers[transcript.calls.length]?.getD .unsatisfiable
  horizon := answers.length

end Engine

end Argumentation.Sat
