import Argumentation.Table

/-!
# Rosters

The variables that every solving call assumes, in order. A variable is removed in constant time:
the last one moves into the gap. The place of each member is kept beside the members.
-/

namespace Argumentation

/-- An ordered collection of variables with their places. -/
structure Roster where
  members : List Nat := []
  places : Table Nat Nat := {}

namespace Roster

/-- Adds a variable at the end. -/
def push (roster : Roster) (member : Nat) : Roster :=
  ⟨roster.members ++ [member], roster.places.insert member roster.members.length⟩

/-- Takes out the member at a place and moves the last member there. -/
def swapRemove (members : List Nat) (place : Nat) : List Nat :=
  match members.getLast? with
  | some last => (members.set place last).dropLast
  | none => []

/-- Removes a variable; nothing happens when it is absent. -/
def remove (roster : Roster) (member : Nat) : Roster :=
  match roster.places.get? member with
  | none => roster
  | some place =>
    let members := swapRemove roster.members place
    let places := roster.places.erase member
    match members[place]? with
    | some moved => ⟨members, places.insert moved place⟩
    | none => ⟨members, places⟩

end Roster

end Argumentation
