import Argumentation.Text.Blank

/-!
# Argument labels

Arguments are named by the values of any type whose values have a text. The rules of a program
are written with these texts, so a label is valid when its text cannot be confused with the
punctuation around it.
-/

namespace Argumentation

/-- A type of argument labels: each one has a text. -/
class Label (α : Type) where
  text : α -> String

instance : Label String := ⟨id⟩

/-- Integers are written in decimal, with a leading `-` when they are negative. -/
instance : Label Int := ⟨toString⟩

namespace Label

/-- The characters that separate labels inside rules and updates. -/
def reserved : List Char :=
  ['(', ')', ',', '.', ':']

/-- Whether a character may occur in a valid label. -/
def isPlain (character : Char) : Bool :=
  !(Text.isBlank character || reserved.contains character)

variable {α : Type} [Label α]

/-- A label is valid when its text is not empty and has neither blanks nor reserved characters. -/
def isValid (label : α) : Bool :=
  !(text label).toList.isEmpty && (text label).toList.all isPlain

end Label

end Argumentation
