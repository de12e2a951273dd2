import Argumentation.Sat.Engine

/-!
# Journals

A journal records, newest first, all that a session lets the outside see while it works: the
clauses it sends to the engine, the solving calls with their verdicts, and the notes it leaves for
the reader of the log.
-/

namespace Argumentation

/-- The importance of a note. -/
inductive Level where
  | trace | debug | info | warn | error
  deriving DecidableEq

namespace Level

/-- The name of a level. -/
def name : Level -> String
  | .trace => "TRACE"
  | .debug => "DEBUG"
  | .info => "INFO"
  | .warn => "WARN"
  | .error => "ERROR"

/-- The rank of a level; more important levels have smaller ranks. -/
def rank : Level -> Nat
  | .error => 1
  | .warn => 2
  | .info => 3
  | .debug => 4
  | .trace => 5

end Level

/-- A line for the log. -/
structure Note where
  level : Level
  text : String
  deriving DecidableEq

/-- Something that a session did. -/
inductive Event where
  | clause (clause : Sat.Clause)
  | call (assumptions : List Sat.Literal) (verdict : Sat.Verdict)
  | note (note : Note)

/-- The events so far, newest first. -/
abbrev Journal := List Event

namespace Journal

/-- The clauses sent, in order. -/
def clauses (journal : Journal) : List Sat.Clause :=
  journal.reverse.filterMap fun
    | .clause clause => some clause
    | _ => none

/-- The assumptions of the solving calls, in order. -/
def calls (journal : Journal) : List (List Sat.Literal) :=
  journal.reverse.filterMap fun
    | .call assumptions _ => some assumptions
    | _ => none

/-- What the engine received so far. -/
def transcript (journal : Journal) : Sat.Transcript :=
  ⟨journal.clauses, journal.calls⟩

/-- The notes that an engine leaves when it reports on a call: the size of what was sent before the
call, then the verdict. -/
def callNotes (sent : Sat.Transcript) (assumptionCount : Nat) (verdict : Sat.Verdict) :
    List Note :=
  [⟨.debug, "launching SAT solver on an instance with " ++ toString sent.variableCount
      ++ " variables, " ++ toString sent.clauses.length ++ " clauses and "
      ++ toString assumptionCount ++ " assumptions"⟩,
    ⟨.debug, "SAT solver ended with result " ++ verdict.name⟩]

/-- The notes of the `count` newest events, oldest first; `reports` tells whether the engine reports
on its calls. -/
def newNotes (reports : Bool) : Nat -> Journal -> List Note
  | 0, _ | _, [] => []
  | count + 1, event :: earlier =>
    newNotes reports count earlier ++
      match event with
      | .clause _ => []
      | .call assumptions verdict =>
        if reports then callNotes (transcript earlier) assumptions.length verdict else []
      | .note note => [note]

end Journal

end Argumentation
