import Argumentation.Program.Atom

/-!
# Rules and batches

A batch is the list of rules that one element of a framework brings into the program. The written
form of a batch joins those of its rules with spaces.
-/

namespace Argumentation

/-- A literal of a rule body. -/
inductive BodyLiteral (α : Type) where
  /-- The atom holds. -/
  | holds (atom : Atom α)
  /-- The atom cannot be derived. -/
  | fails (atom : Atom α)
  deriving DecidableEq

/-- A rule of a batch. -/
inductive Rule (α : Type) where
  /-- The value of the atom is set from outside. -/
  | external (atom : Atom α)
  /-- The head holds when the body does. -/
  | derive (head : Atom α) (body : List (BodyLiteral α))
  /-- The body must not hold. -/
  | constraint (body : List (BodyLiteral α))
  /-- Rules of later batches may derive the atom. -/
  | declare (atom : Atom α)
  /-- The atom belongs to the visible output. -/
  | display (atom : Atom α)
  deriving DecidableEq

/-- The rules that describe one element. -/
structure Batch (α : Type) where
  element : Element α
  rules : List (Rule α)
  deriving DecidableEq

namespace BodyLiteral

variable {α : Type}

/-- The atom of a literal. -/
def atom : BodyLiteral α -> Atom α
  | .holds atom | .fails atom => atom

/-- The written form of a literal. -/
def text [Label α] : BodyLiteral α -> String
  | .holds atom => atom.text
  | .fails atom => "not " ++ atom.text

end BodyLiteral

namespace Rule

variable {α : Type}

/-- The body of a rule; declarations have none. -/
def body : Rule α -> List (BodyLiteral α)
  | .derive _ body | .constraint body => body
  | _ => []

/-- The atom that a rule is about; constraints have none. -/
def head? : Rule α -> Option (Atom α)
  | .external atom | .derive atom _ | .declare atom | .display atom => some atom
  | .constraint _ => none

/-- The atoms of a rule, the head first. -/
def atoms (rule : Rule α) : List (Atom α) :=
  rule.head?.toList ++ rule.body.map BodyLiteral.atom

/-- The written form of a body. -/
def bodyText [Label α] (body : List (BodyLiteral α)) : String :=
  String.intercalate ", " (body.map BodyLiteral.text)

/-- The written form of a rule. A rule without conditions is written as a fact, and a constraint
keeps its arrow even when it has no conditions. -/
def text [Label α] : Rule α -> String
  | .external atom => "#external " ++ atom.text ++ "."
  | .derive head [] => head.text ++ "."
  | .derive head body => head.text ++ " :- " ++ bodyText body ++ "."
  | .constraint body => ":- " ++ bodyText body ++ "."
  | .declare atom => "#open " ++ atom.text ++ "."
  | .display atom => "#show " ++ atom.text ++ "."

end Rule

/-- The written form of a batch. -/
def Batch.text {α : Type} [Label α] (batch : Batch α) : String :=
  String.intercalate " " (batch.rules.map Rule.text)

end Argumentation
