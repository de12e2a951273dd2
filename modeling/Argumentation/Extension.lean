import Argumentation.Label

/-!
# Extensions

An extension lists the labels of the arguments that are in, in the order in which the arguments
became visible. Printed answers come in the order of size, then of the written form.
-/

namespace Argumentation

/-- The labels of the arguments that are in. -/
abbrev Extension (α : Type) := List α

namespace Extension

variable {α : Type} [Label α]

/-- The written form of an extension: its labels between braces. -/
def text (extension : Extension α) : String :=
  "\x7b" ++ String.intercalate "," (extension.map Label.text) ++ "\x7d"

/-- Whether an extension is printed before another, or may be: the shorter one is first, and
written forms decide between those of one size. -/
def precedes (left right : Extension α) : Bool :=
  left.length < right.length
    || (left.length == right.length && left.text <= right.text)

/-- The extensions in printing order. -/
def sorted (extensions : List (Extension α)) : List (Extension α) :=
  extensions.mergeSort precedes

end Extension

end Argumentation
