import Argumentation.Program.Atom

/-!
# Errors

The causes for which a framework, a program session or a solver refuses an operation, and their
wording. Causes hold the labels, atoms and elements they speak of, so that statements about
failures need no texts.
-/

namespace Argumentation

/-- What is wrong with a batch of rules. -/
inductive BatchFault (α : Type) where
  /-- A rule declares an external atom that is not the one of the element. -/
  | unexpectedExternal (atom : Atom α)
  /-- A rule derives or opens a structural atom. -/
  | derivesExternal (atom : Atom α)
  /-- A rule shows an atom that cannot be shown. -/
  | notShowable (atom : Atom α)
  /-- A body mentions a structural atom that no applied batch declares. -/
  | unknownExternal (atom : Atom α)
  /-- No rule declares the structural atom of the element. -/
  | missingExternal (atom : Atom α)
  deriving DecidableEq

/-- The cause of a refused operation. -/
inductive Error (α : Type) where
  | duplicateArgument (label : α)
  | duplicateAttack (attacker attacked : α)
  | unknownArgument (label : α)
  | unknownElement (atom : Atom α)
  /-- Another batch is applied for the element. -/
  | batchConflict (element : Element α)
  | inactiveArgument (label : α)
  | invalidLabel (label : α)
  | malformedBatch (element : Element α) (fault : BatchFault α)
  /-- The deadline passed after some extensions were found. -/
  | solveTimeout (found : Nat)
  /-- The engine gave no verdict. -/
  | engineFailure
  deriving DecidableEq

variable {α : Type} [Label α]

/-- The wording of a batch fault. -/
def BatchFault.message : BatchFault α -> String
  | .unexpectedExternal atom => "unexpected external atom " ++ atom.text
  | .derivesExternal atom => "rule derives external atom " ++ atom.text
  | .notShowable atom => "cannot show atom " ++ atom.text
  | .unknownExternal atom => "unknown external atom " ++ atom.text
  | .missingExternal atom => "no external declaration for " ++ atom.text

/-- The wording of an error. -/
def Error.message : Error α -> String
  | .duplicateArgument label => "argument " ++ Label.text label ++ " is already defined"
  | .duplicateAttack attacker attacked =>
    "attack from " ++ Label.text attacker ++ " to " ++ Label.text attacked
      ++ " is already defined"
  | .unknownArgument label => "no such argument: " ++ Label.text label
  | .unknownElement atom => "unknown element: " ++ atom.text
  | .batchConflict element => "conflicting batch for " ++ element.text
  | .inactiveArgument label => "argument " ++ Label.text label ++ " is not active"
  | .invalidLabel label => "invalid argument label \"" ++ Label.text label ++ "\""
  | .malformedBatch element fault => "malformed batch for " ++ element.text ++ ": " ++ fault.message
  | .solveTimeout found => "solving timed out after " ++ toString found ++ " extension(s)"
  | .engineFailure => "the SAT solver returned an unknown status"

end Argumentation
