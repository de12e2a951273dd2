/-!
# Association tables

A finite map kept as a list of entries. The first entry of a key is the one that counts, so adding
an entry hides the earlier ones of its key.
-/

namespace Argumentation

/-- A finite map from keys to values. -/
structure Table (κ ν : Type) where
  entries : List (κ × ν) := []

namespace Table

variable {κ ν : Type} [DecidableEq κ]

/-- The value of a key, if it has one. -/
def get? (table : Table κ ν) (key : κ) : Option ν :=
  (table.entries.find? fun entry => entry.1 = key).map (·.2)

/-- Gives a value to a key. -/
def insert (table : Table κ ν) (key : κ) (value : ν) : Table κ ν :=
  ⟨(key, value) :: table.entries⟩

/-- Removes a key and its value. -/
def erase (table : Table κ ν) (key : κ) : Table κ ν :=
  ⟨table.entries.filter fun entry => entry.1 ≠ key⟩

@[simp]
theorem get?_empty (key : κ) : (⟨[]⟩ : Table κ ν).get? key = none := rfl

theorem get?_insert (table : Table κ ν) (key other : κ) (value : ν) :
    (table.insert key value).get? other = if key = other then some value else table.get? other := by
  by_cases same : key = other <;> simp [insert, get?, same]

theorem get?_erase (table : Table κ ν) (key other : κ) :
    (table.erase key).get? other = if key = other then none else table.get? other := by
  by_cases same : key = other
  · subst same
    simp [erase, get?]
  · have agrees : forall entry : κ × ν,
        ((entry.1 ≠ key ∧ entry.1 = other) ↔ entry.1 = other) := fun entry =>
      ⟨And.right, fun equal => ⟨fun wrong => same (wrong.symm.trans equal), equal⟩⟩
    simp [erase, get?, same, List.find?_filter, agrees]

end Table

end Argumentation
