import Argumentation.Extension
import Argumentation.Proofs.Framework.Consistency

/-!
# Admissible sets

A set of active arguments is admissible when no active attack joins two of its members and each
active attack on a member comes from an argument that a member attacks. An extension of a framework
lists an admissible set in the order of the arguments, so every admissible set has one extension.
-/

namespace Argumentation

variable {α : Type}

/-- The members of a list form an admissible set. -/
structure IsAdmissible (active : α -> Prop) (attacks : α -> α -> Prop) (members : List α) :
    Prop where
  active : forall label, label ∈ members -> active label
  conflictFree : forall attacker attacked, attacks attacker attacked -> attacker ∈ members ->
    attacked ∉ members
  defended : forall attacker attacked, attacks attacker attacked -> attacked ∈ members ->
    ∃ defender, attacks defender attacker ∧ defender ∈ members

section IsAdmissible

variable {active : α -> Prop} {attacks : α -> α -> Prop}

theorem IsAdmissible.nil : IsAdmissible active attacks [] :=
  ⟨by simp, by simp, by simp⟩

/-- Only the members matter, not how they are listed. -/
theorem IsAdmissible.congr {members others : List α}
    (admissible : IsAdmissible active attacks members)
    (same : forall label, label ∈ others ↔ label ∈ members) :
    IsAdmissible active attacks others where
  active label member := admissible.active label ((same label).mp member)
  conflictFree attacker attacked attack first second :=
    admissible.conflictFree attacker attacked attack ((same _).mp first) ((same _).mp second)
  defended attacker attacked attack member := by
    obtain ⟨defender, defends, inside⟩ :=
      admissible.defended attacker attacked attack ((same _).mp member)
    exact ⟨defender, defends, (same _).mpr inside⟩

end IsAdmissible

/-- A sublist of distinct labels is determined by its members. -/
theorem filter_mem_of_sublist [DecidableEq α] {some all : List α} (distinct : all.Nodup)
    (sublist : some.Sublist all) : all.filter (fun label => some.contains label) = some := by
  induction sublist with
  | slnil => rfl
  | @cons first second label sublist ih =>
    obtain ⟨new, distinct⟩ := List.nodup_cons.mp distinct
    have absent : label ∉ first := fun member => new (sublist.subset member)
    simpa [absent] using ih distinct
  | @cons_cons first second label sublist ih =>
    obtain ⟨new, distinct⟩ := List.nodup_cons.mp distinct
    have same : second.filter (fun other => (label :: first).contains other) =
        second.filter fun other => first.contains other :=
      List.filter_congr fun other member => by
        simp [ne_of_mem_of_not_mem member new]
    rw [List.filter_cons_of_pos (by simp), same, ih distinct]

/-- A list that keeps the order of others and picks those with a property. -/
theorem sublist_filter_iff {some all : List α} {property : α -> Bool} :
    some.Sublist (all.filter property) ↔
      some.Sublist all ∧ forall label, label ∈ some -> property label = true := by
  constructor
  · intro sublist
    exact ⟨sublist.trans List.filter_sublist,
      fun label member => (List.mem_filter.mp (sublist.subset member)).2⟩
  · rintro ⟨sublist, holds⟩
    rw [← List.filter_eq_self.mpr holds]
    exact sublist.filter property

/-- Every admissible set is listed in exactly one way in the order of the labels. -/
theorem IsAdmissible.existsUnique_sublist [DecidableEq α] {active : α -> Prop}
    {attacks : α -> α -> Prop} {members all : List α} (distinct : all.Nodup)
    (known : forall label, active label -> label ∈ all)
    (admissible : IsAdmissible active attacks members) :
    ∃! extension : List α, (extension.Sublist all ∧ IsAdmissible active attacks extension) ∧
      forall label, label ∈ extension ↔ label ∈ members := by
  have same : forall label, label ∈ all.filter (fun label => members.contains label) ↔
      label ∈ members := by
    intro label
    simpa using fun member => known label (admissible.active label member)
  refine ⟨_, ⟨⟨List.filter_sublist, admissible.congr same⟩, same⟩, ?_⟩
  rintro other ⟨⟨sublist, _⟩, members⟩
  rw [← filter_mem_of_sublist distinct sublist]
  exact List.filter_congr fun label _ => by simp [members]

namespace Framework

/-- A list of labels that is an admissible set, in the order of the arguments. -/
structure IsExtension (framework : Framework α) (extension : Extension α) : Prop where
  sublist : extension.Sublist framework.arguments.labels
  admissible : IsAdmissible (fun label => label ∈ framework.arguments.labels)
    (fun attacker attacked => (attacker, attacked) ∈ framework.attackList) extension

/-- Every admissible set has exactly one extension. -/
theorem Consistent.existsUnique_isExtension [DecidableEq α] {framework : Framework α}
    (consistent : framework.Consistent) {members : List α}
    (admissible : IsAdmissible (fun label => label ∈ framework.arguments.labels)
      (fun attacker attacked => (attacker, attacked) ∈ framework.attackList) members) :
    ∃! extension, framework.IsExtension extension ∧
      forall label, label ∈ extension ↔ label ∈ members := by
  obtain ⟨extension, ⟨⟨sublist, listed⟩, same⟩, unique⟩ :=
    admissible.existsUnique_sublist consistent.arguments.distinct fun _ known => known
  refine ⟨extension, ⟨⟨sublist, listed⟩, same⟩, ?_⟩
  rintro other ⟨⟨sublist, listed⟩, same⟩
  exact unique other ⟨⟨sublist, listed⟩, same⟩

end Framework

end Argumentation
