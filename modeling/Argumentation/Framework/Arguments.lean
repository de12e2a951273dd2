import Argumentation.Error
import Argumentation.Table

/-!
# Argument sets

The arguments of a framework, in insertion order. An argument's identifier is its position in this
order; arguments are never removed, so identifiers stay valid.
-/

namespace Argumentation

/-- An argument of a set: its identifier and its label. -/
structure Argument (α : Type) where
  id : Nat
  label : α
  deriving DecidableEq

/-- A set of arguments with distinct labels. -/
structure ArgumentSet (α : Type) where
  /-- The labels, in insertion order. -/
  labels : List α := []
  /-- The identifier of each label. -/
  ids : Table α Nat := {}

namespace ArgumentSet

variable {α : Type} [DecidableEq α]

/-- The number of arguments. -/
def size (set : ArgumentSet α) : Nat :=
  set.labels.length

/-- Whether an argument has this label. -/
def contains (set : ArgumentSet α) (label : α) : Bool :=
  (set.ids.get? label).isSome

/-- Adds an argument, whose identifier is the size of the set. A label may occur only once. -/
def insert (set : ArgumentSet α) (label : α) : Except (Error α) (ArgumentSet α) :=
  if set.contains label then .error (.duplicateArgument label)
  else .ok ⟨set.labels ++ [label], set.ids.insert label set.size⟩

/-- The set of the given labels, in this order. -/
def ofLabels (labels : List α) : Except (Error α) (ArgumentSet α) :=
  labels.foldlM insert {}

/-- The argument with this identifier. -/
def argument? (set : ArgumentSet α) (id : Nat) : Option (Argument α) :=
  set.labels[id]?.map fun label => ⟨id, label⟩

/-- The argument with this label. -/
def find (set : ArgumentSet α) (label : α) : Except (Error α) (Argument α) :=
  match (set.ids.get? label).bind set.argument? with
  | some argument => .ok argument
  | none => .error (.unknownArgument label)

/-- The arguments, in insertion order. -/
def toList (set : ArgumentSet α) : List (Argument α) :=
  set.labels.mapIdx fun id label => ⟨id, label⟩

end ArgumentSet

end Argumentation
