import Argumentation.Program.Atom

/-!
# Patches

One change of a dynamic framework: an element is enabled, or disabled. Enabling an element that is
not known yet adds it.
-/

namespace Argumentation

/-- A change of one element. -/
inductive Patch (α : Type) where
  | enable (element : Element α)
  | disable (element : Element α)
  deriving DecidableEq

namespace Patch

/-- The patch that enables an element, or disables it. -/
def ofSign {α : Type} (enables : Bool) (element : Element α) : Patch α :=
  if enables then .enable element else .disable element

/-- The written form of a patch: a sign and the element. -/
def text {α : Type} [Label α] : Patch α -> String
  | .enable element => "+" ++ element.text
  | .disable element => "-" ++ element.text

end Patch

end Argumentation
