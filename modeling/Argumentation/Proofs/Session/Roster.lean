import Argumentation.Session.Roster
import Mathlib.Data.List.Nodup

/-!
# Consistent rosters

In a consistent roster each member stands at the one place that is recorded for it. Adding a new
member and removing a member keep it so, although a removal moves another member.
-/

namespace Argumentation.Roster

/-- The recorded places are those of the members. -/
def Consistent (roster : Roster) : Prop :=
  forall member place,
    roster.places.get? member = some place ↔ roster.members[place]? = some member

theorem Consistent.empty : Consistent {} := by
  simp [Consistent]

/-- No member stands at two places. -/
theorem Consistent.place_unique {roster : Roster} (consistent : roster.Consistent)
    {member first second : Nat} (atFirst : roster.members[first]? = some member)
    (atSecond : roster.members[second]? = some member) : first = second := by
  have left := (consistent member first).mpr atFirst
  have right := (consistent member second).mpr atSecond
  exact Option.some.inj (left.symm.trans right)

/-- Every member stands at one place. -/
theorem Consistent.nodup_members {roster : Roster} (consistent : roster.Consistent) :
    roster.members.Nodup := by
  refine List.nodup_iff_getElem?_ne_getElem?.mpr fun first second before short same => ?_
  have stands := List.getElem?_eq_getElem short
  exact Nat.ne_of_lt before (consistent.place_unique (same.trans stands) stands)

/-- The recorded members are the members. -/
theorem Consistent.mem_members_iff {roster : Roster} (consistent : roster.Consistent)
    {member : Nat} : member ∈ roster.members ↔ (roster.places.get? member).isSome := by
  rw [List.mem_iff_getElem?, Option.isSome_iff_exists]
  simp only [consistent member]

theorem Consistent.push {roster : Roster} (consistent : roster.Consistent) {member : Nat}
    (new : member ∉ roster.members) : (roster.push member).Consistent := by
  intro other place
  simp only [Roster.push, Table.get?_insert, List.getElem?_append, List.getElem?_singleton]
  have absent : roster.members[place]? ≠ some member := fun found =>
    new (List.mem_of_getElem? found)
  have recorded := consistent other place
  have outside : roster.members.length <= place -> roster.members[place]? = none :=
    List.getElem?_eq_none
  by_cases same : member = other <;> grind

@[simp]
theorem mem_members_push {roster : Roster} {member other : Nat} :
    other ∈ (roster.push member).members ↔ other ∈ roster.members ∨ other = member := by
  simp [push]

/-- What is left of some members when the last one fills the gap of a removed one. -/
theorem getElem?_swapRemove {members : List Nat} {place : Nat} (inside : place < members.length)
    (index : Nat) :
    (swapRemove members place)[index]? =
      if members.length <= index + 1 then none
      else if index = place then members[members.length - 1]? else members[index]? := by
  have last : members.getLast? = some members[members.length - 1] := by
    rw [List.getLast?_eq_getElem?, List.getElem?_eq_getElem (by omega)]
  simp only [swapRemove, last, List.getElem?_dropLast, List.getElem?_set, List.length_set]
  grind

/-- The places of the members after the last one has filled the gap of another. -/
theorem Consistent.move {roster : Roster} (consistent : roster.Consistent) {member place last : Nat}
    (stands : roster.members[place]? = some member)
    (atEnd : roster.members[roster.members.length - 1]? = some last)
    (before : place + 1 < roster.members.length) (other index : Nat) :
    (if last = other then some place
        else if member = other then none else roster.places.get? other) = some index ↔
      (if roster.members.length <= index + 1 then none
        else if index = place then roster.members[roster.members.length - 1]?
        else roster.members[index]?) = some other := by
  by_cases moves : last = other
  · subst moves
    by_cases here : index = place
    · simp [here, atEnd, show ¬ roster.members.length <= place + 1 by omega]
    · have elsewhere : roster.members[index]? = some last ->
          roster.members.length <= index + 1 := by
        intro found
        have same := consistent.place_unique found atEnd
        omega
      simp only [if_pos, Option.some.injEq, Ne.symm here, here, if_false, false_iff]
      split
      · simp
      · rename_i inner
        exact fun found => inner (elsewhere found)
  · rw [if_neg moves]
    by_cases same : member = other
    · subst same
      rw [if_pos rfl]
      by_cases here : index = place
      · simp [here, atEnd, moves]
      · have elsewhere : roster.members[index]? ≠ some member := fun found =>
          here (consistent.place_unique found stands)
        simp [here, elsewhere]
    · rw [if_neg same, consistent]
      by_cases here : index = place
      · simp [here, stands, atEnd, moves, same]
      · by_cases found : roster.members[index]? = some other
        · have inner : ¬ roster.members.length <= index + 1 := by
            intro outside
            have low := (List.getElem?_eq_some_iff.mp found).1
            rw [show index = roster.members.length - 1 by omega, atEnd] at found
            exact moves (Option.some.inj found)
          simp [here, found, inner]
        · simp [here, found]

theorem Consistent.remove {roster : Roster} (consistent : roster.Consistent) (member : Nat) :
    (roster.remove member).Consistent := by
  simp only [Roster.remove]
  cases found : roster.places.get? member with
  | none => exact consistent
  | some place =>
    have stands := (consistent member place).mp found
    have inside := (List.getElem?_eq_some_iff.mp stands).1
    have after := getElem?_swapRemove inside
    obtain ⟨last, atEnd⟩ : ∃ last, roster.members[roster.members.length - 1]? = some last :=
      ⟨_, List.getElem?_eq_getElem (by omega)⟩
    -- The last member moves, unless it is the one that goes.
    by_cases final : place = roster.members.length - 1
    · have gone : (swapRemove roster.members place)[place]? = none := by
        rw [after, if_pos (by omega)]
      simp only [gone]
      intro other index
      have recorded := consistent other index
      have unique : roster.members[index]? = some member -> index = place := fun found =>
        consistent.place_unique found stands
      simp only [Table.get?_erase, after]
      grind
    · have moved : (swapRemove roster.members place)[place]? = some last := by
        rw [after, if_neg (by omega), if_pos rfl, atEnd]
      simp only [moved]
      intro other index
      simp only [Table.get?_insert, Table.get?_erase, after]
      exact consistent.move stands atEnd (by omega) other index

/-- A removal takes out one member and no other. -/
theorem Consistent.mem_members_remove {roster : Roster} (consistent : roster.Consistent)
    {member other : Nat} :
    other ∈ (roster.remove member).members ↔ other ∈ roster.members ∧ other ≠ member := by
  rw [(consistent.remove member).mem_members_iff, consistent.mem_members_iff]
  simp only [Roster.remove]
  cases found : roster.places.get? member with
  | none => grind
  | some place =>
    have stands := (consistent member place).mp found
    have inside := (List.getElem?_eq_some_iff.mp stands).1
    have after := getElem?_swapRemove inside place
    cases moved : (swapRemove roster.members place)[place]? with
    | none =>
      simp only [moved, Table.get?_erase]
      grind
    | some last =>
      have atEnd := (consistent last (roster.members.length - 1)).mpr (by grind)
      have distinct : last ≠ member := by
        rintro rfl
        have same := consistent.place_unique stands ((consistent _ _).mp atEnd)
        grind
      simp only [moved, Table.get?_insert, Table.get?_erase]
      grind

end Argumentation.Roster
