import Argumentation.Label

/-!
# Atoms and elements

The atoms of the admissibility program speak of one argument or one attack. Two kinds of them are
structural: `arg` and `att` say that an element of the framework is active, and their value is set
from outside the program. The others are derived by rules.
-/

namespace Argumentation

/-- A ground atom. -/
inductive Atom (α : Type) where
  /-- The argument is active. -/
  | argument (label : α)
  /-- The attack is active. -/
  | attack (attacker attacked : α)
  /-- The argument belongs to the extension. -/
  | inside (label : α)
  /-- The argument does not belong to the extension. -/
  | outside (label : α)
  /-- The extension attacks the argument. -/
  | defeated (label : α)
  /-- Some attacker of the argument is not defeated. -/
  | undefended (label : α)
  deriving DecidableEq

/-- An argument or an attack of a framework, given by labels. -/
inductive Element (α : Type) where
  | argument (label : α)
  | attack (attacker attacked : α)
  deriving DecidableEq

namespace Atom

/-- Whether an atom states the presence of an element. -/
def isStructural {α : Type} : Atom α -> Bool
  | .argument _ | .attack _ _ => true
  | _ => false

/-- Whether an atom may be shown: only membership in the extension is. -/
def isShowable {α : Type} : Atom α -> Bool
  | .inside _ => true
  | _ => false

/-- The written form of an atom. -/
def text {α : Type} [Label α] : Atom α -> String
  | .argument label => "arg(" ++ Label.text label ++ ")"
  | .attack attacker attacked => "att(" ++ Label.text attacker ++ "," ++ Label.text attacked ++ ")"
  | .inside label => "in(" ++ Label.text label ++ ")"
  | .outside label => "out(" ++ Label.text label ++ ")"
  | .defeated label => "defeated(" ++ Label.text label ++ ")"
  | .undefended label => "not_defended(" ++ Label.text label ++ ")"

end Atom

namespace Element

/-- The structural atom that states the presence of an element. -/
def flagAtom {α : Type} : Element α -> Atom α
  | .argument label => .argument label
  | .attack attacker attacked => .attack attacker attacked

/-- An element is written as its structural atom. -/
def text {α : Type} [Label α] (element : Element α) : String :=
  element.flagAtom.text

end Element

end Argumentation
