import Argumentation.Report

/-!
# Problems

A problem is a query under a semantics, written with a hyphen between their codes as in `EE-AD`.
The codes may be given in either case of the ASCII letters.
-/

namespace Argumentation

/-- What is asked about the extensions of a framework. -/
inductive Query where
  /-- Their number. -/
  | count
  /-- Whether some of them has a given argument. -/
  | accept
  /-- All of them. -/
  | enumerate
  /-- Any one of them. -/
  | computeOne
  deriving DecidableEq

/-- Which sets of arguments are extensions. -/
inductive Semantics where
  /-- The admissible sets. -/
  | admissible
  deriving DecidableEq

namespace Query

/-- The queries, in the order of their codes. -/
def all : List Query :=
  [.count, .accept, .enumerate, .computeOne]

/-- The code of a query. -/
def code : Query -> String
  | .count => "CE"
  | .accept => "DC"
  | .enumerate => "EE"
  | .computeOne => "SE"

/-- Whether a query is about one argument. -/
def needsArgument (query : Query) : Bool :=
  query = .accept

end Query

namespace Semantics

/-- The supported semantics. -/
def all : List Semantics :=
  [.admissible]

/-- The code of a semantics. -/
def code : Semantics -> String
  | .admissible => "AD"

end Semantics

/-- A text with its ASCII letters in upper case. -/
def upperCase (text : String) : List Char :=
  text.toList.map Char.toUpper

/-- The query of a code. -/
def Query.read (text : String) : Except Report Query :=
  match Query.all.find? fun query => query.code.toList = upperCase text with
  | some query => .ok query
  | none => .error (.ofText (.undefinedQuery text))

/-- The semantics of a code. -/
def Semantics.read (text : String) : Except Report Semantics :=
  match Semantics.all.find? fun semantics => semantics.code.toList = upperCase text with
  | some semantics => .ok semantics
  | none => .error (.ofText (.undefinedSemantics text))

/-- A query under a semantics. -/
structure Problem where
  query : Query
  semantics : Semantics
  deriving DecidableEq

namespace Problem

/-- The written form of a problem. -/
def text (problem : Problem) : String :=
  problem.query.code ++ "-" ++ problem.semantics.code

/-- All the problems, by query. -/
def all : List Problem :=
  Query.all.flatMap fun query => Semantics.all.map fun semantics => ⟨query, semantics⟩

/-- The parts of a text before and after its first hyphen. -/
def splitAtHyphen? (text : List Char) : Option (String × String) :=
  match text.dropWhile (· ≠ '-') with
  | [] => none
  | _ :: rest => some (String.ofList (text.takeWhile (· ≠ '-')), String.ofList rest)

/-- Reads a problem; the query is looked at first. -/
def read (text : String) : Except Report Problem :=
  during (.parsingProblem text) do
    match splitAtHyphen? text.toList with
    | none => .error (.ofText .missingHyphen)
    | some (queryText, semanticsText) =>
      let query ← Query.read queryText
      let semantics ← Semantics.read semanticsText
      .ok ⟨query, semantics⟩

end Problem

end Argumentation
