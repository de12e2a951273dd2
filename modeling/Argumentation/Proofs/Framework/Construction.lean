import Argumentation.Proofs.Framework.Consistency

/-!
# Built frameworks

A framework is built by starting from a set of arguments and adding further arguments and attacks;
refused additions change nothing, so they do not count. Built frameworks are consistent, and what an
addition did can be read off its success.
-/

namespace Argumentation

section Success

variable {ε φ β γ : Type} {result : Except ε β}

/-- Both steps of a success are successes. -/
theorem bind_eq_ok {next : β -> Except ε γ} {value : γ} :
    result >>= next = .ok value ↔ ∃ before, result = .ok before ∧ next before = .ok value := by
  cases result <;> simp [bind, Except.bind]

theorem map_eq_ok {change : β -> γ} {value : γ} :
    result.map change = .ok value ↔ ∃ before, result = .ok before ∧ change before = value := by
  cases result <;> simp [Except.map]

/-- A change of the error is no change of a success. -/
theorem mapError_eq_ok {change : ε -> φ} {value : β} :
    result.mapError change = .ok value ↔ result = .ok value := by
  cases result <;> simp [Except.mapError]

end Success

variable {α : Type} [DecidableEq α]

/-- The argument sets that the operations can build. -/
inductive ArgumentSet.IsBuilt : ArgumentSet α -> Prop
  | empty : IsBuilt {}
  | insert {set later : ArgumentSet α} {label : α} (built : IsBuilt set)
      (done : set.insert label = .ok later) : IsBuilt later

/-- The frameworks that the operations can build. -/
inductive Framework.IsBuilt : Framework α -> Prop
  | ofArguments {set : ArgumentSet α} (built : set.IsBuilt) : IsBuilt (ofArguments set)
  | addArgument {framework later : Framework α} {label : α} (built : IsBuilt framework)
      (done : framework.addArgument label = .ok later) : IsBuilt later
  | addAttack {framework later : Framework α} {attacker attacked : α} (built : IsBuilt framework)
      (done : framework.addAttack attacker attacked = .ok later) : IsBuilt later

namespace ArgumentSet

/-- An insertion that succeeds puts a new label at the end. -/
theorem Consistent.of_insert {set later : ArgumentSet α} (consistent : set.Consistent) {label : α}
    (done : set.insert label = .ok later) :
    label ∉ set.labels ∧ later.Consistent ∧ later.labels = set.labels ++ [label] := by
  by_cases known : label ∈ set.labels
  · rw [consistent.insert_of_mem known] at done
    cases done
  · obtain ⟨other, inserted, table, labels⟩ := consistent.insert_of_not_mem known
    cases inserted.symm.trans done
    exact ⟨known, table, labels⟩

theorem IsBuilt.consistent {set : ArgumentSet α} (built : set.IsBuilt) : set.Consistent := by
  induction built with
  | empty => exact .empty
  | insert _ done ih => exact (ih.of_insert done).2.1

/-- Labels that are inserted one after the other go to the end in their order. -/
theorem IsBuilt.of_foldlM {set later : ArgumentSet α} (built : set.IsBuilt) {labels : List α}
    (done : labels.foldlM ArgumentSet.insert set = .ok later) :
    later.IsBuilt ∧ later.labels = set.labels ++ labels := by
  induction labels generalizing set with
  | nil =>
    cases done
    exact ⟨built, (List.append_nil _).symm⟩
  | cons label rest ih =>
    rw [List.foldlM_cons] at done
    obtain ⟨next, inserted, others⟩ := bind_eq_ok.mp done
    obtain ⟨whole, listed⟩ := ih (.insert built inserted) others
    refine ⟨whole, ?_⟩
    rw [listed, (built.consistent.of_insert inserted).2.2, List.append_assoc,
      List.singleton_append]

theorem isBuilt_ofLabels {labels : List α} {set : ArgumentSet α}
    (done : ofLabels labels = .ok set) : set.IsBuilt ∧ set.labels = labels :=
  IsBuilt.of_foldlM .empty done

/-- Distinct labels that are not in a set can be inserted one after the other. -/
theorem Consistent.exists_foldlM {set : ArgumentSet α} (consistent : set.Consistent)
    {labels : List α} (distinct : (set.labels ++ labels).Nodup) :
    ∃ later, labels.foldlM ArgumentSet.insert set = .ok later := by
  induction labels generalizing set with
  | nil => exact ⟨set, rfl⟩
  | cons label rest ih =>
    have absent : label ∉ set.labels := fun known =>
      (List.nodup_append.mp distinct).2.2 label known label List.mem_cons_self rfl
    obtain ⟨next, inserted, again, labels⟩ := consistent.insert_of_not_mem absent
    obtain ⟨later, done⟩ := ih again (by simpa [labels] using distinct)
    exact ⟨later, by rw [List.foldlM_cons, inserted]; exact done⟩

/-- Labels form a set exactly when they are distinct. -/
theorem exists_ofLabels_iff {labels : List α} :
    (∃ set, ofLabels labels = .ok set) ↔ labels.Nodup := by
  constructor
  · rintro ⟨set, done⟩
    obtain ⟨built, listed⟩ := isBuilt_ofLabels done
    exact listed ▸ built.consistent.distinct
  · exact fun distinct => Consistent.exists_foldlM .empty distinct

/-- Of labels that are not distinct, the first one that occurred before is refused. -/
theorem ofLabels_of_mem {before : List α} {label : α} (distinct : before.Nodup)
    (known : label ∈ before) (after : List α) :
    ofLabels (before ++ label :: after) = .error (.duplicateArgument label) := by
  obtain ⟨set, done⟩ := exists_ofLabels_iff.mpr distinct
  obtain ⟨built, labels⟩ := isBuilt_ofLabels done
  have refused := built.consistent.insert_of_mem (labels ▸ known)
  rw [ofLabels] at done ⊢
  simp only [List.foldlM_append, List.foldlM_cons, done, bind, Except.bind, refused]

end ArgumentSet

/-- Without attacks, no argument has positions. -/
theorem Indexes.replicate (size : Nat) (endOf : Nat × Nat -> Nat) :
    Indexes (List.replicate size []) size [] endOf := by
  simp [Indexes, List.map_const']

namespace Framework

variable {framework later : Framework α}

theorem Consistent.ofArguments {set : ArgumentSet α} (consistent : set.Consistent) :
    (ofArguments set).Consistent where
  arguments := consistent
  ends := by simp [Framework.ofArguments]
  distinct := List.nodup_nil
  listed := by simp [joins, Framework.ofArguments]
  outgoing := .replicate set.size Prod.fst
  incoming := .replicate set.size Prod.snd

/-- An argument that could be added was new and is the last one. -/
theorem Consistent.of_addArgument (consistent : framework.Consistent) {label : α}
    (done : framework.addArgument label = .ok later) :
    later.Consistent ∧ label ∉ framework.arguments.labels ∧
      later.arguments.labels = framework.arguments.labels ++ [label] ∧
      later.attackList = framework.attackList := by
  by_cases known : label ∈ framework.arguments.labels
  · rw [consistent.addArgument_of_mem known] at done
    cases done
  · obtain ⟨other, added, again, labels, attacks⟩ := consistent.addArgument_of_not_mem known
    cases added.symm.trans done
    exact ⟨again, known, labels, attacks⟩

theorem Consistent.addAttack_of_unknown_attacker (consistent : framework.Consistent)
    {attacker attacked : α} (unknown : attacker ∉ framework.arguments.labels) :
    framework.addAttack attacker attacked = .error (.unknownArgument attacker) := by
  rw [addAttack, consistent.arguments.find_of_not_mem unknown]
  rfl

theorem Consistent.addAttack_of_unknown_attacked (consistent : framework.Consistent)
    {attacker attacked : α} (first : attacker ∈ framework.arguments.labels)
    (unknown : attacked ∉ framework.arguments.labels) :
    framework.addAttack attacker attacked = .error (.unknownArgument attacked) := by
  obtain ⟨source, _, left⟩ := consistent.arguments.find_of_mem first
  rw [addAttack, left, consistent.arguments.find_of_not_mem unknown]
  rfl

theorem Consistent.addAttack_of_mem (consistent : framework.Consistent) {attacker attacked : α}
    (known : (attacker, attacked) ∈ framework.attackList) :
    framework.addAttack attacker attacked = .error (.duplicateAttack attacker attacked) := by
  obtain ⟨first, second⟩ := ends_mem_labels known
  obtain ⟨source, atSource, left⟩ := consistent.arguments.find_of_mem first
  obtain ⟨target, atTarget, right⟩ := consistent.arguments.find_of_mem second
  have listed := (consistent.mem_attacks_iff atSource atTarget).mpr known
  rw [addAttack, left, right]
  exact if_pos ((consistent.listed _).mpr listed)

/-- An attack that could be added was new, joins known arguments and is the last one. -/
theorem Consistent.of_addAttack (consistent : framework.Consistent) {attacker attacked : α}
    (done : framework.addAttack attacker attacked = .ok later) :
    later.Consistent ∧ (attacker, attacked) ∉ framework.attackList ∧
      later.arguments = framework.arguments ∧
      later.attackList = framework.attackList ++ [(attacker, attacked)] := by
  by_cases first : attacker ∈ framework.arguments.labels
  · by_cases second : attacked ∈ framework.arguments.labels
    · by_cases known : (attacker, attacked) ∈ framework.attackList
      · rw [consistent.addAttack_of_mem known] at done
        cases done
      · obtain ⟨other, added, again, arguments, attacks⟩ :=
          consistent.addAttack_of_not_mem first second known
        cases added.symm.trans done
        exact ⟨again, known, arguments, attacks⟩
    · rw [consistent.addAttack_of_unknown_attacked first second] at done
      cases done
  · rw [consistent.addAttack_of_unknown_attacker first] at done
    cases done

theorem IsBuilt.consistent (built : framework.IsBuilt) : framework.Consistent := by
  induction built with
  | ofArguments built => exact .ofArguments built.consistent
  | addArgument _ done ih => exact (ih.of_addArgument done).1
  | addAttack _ done ih => exact (ih.of_addAttack done).1

theorem IsBuilt.empty : ({} : Framework α).IsBuilt :=
  .ofArguments .empty

/-- Attacks that are added one after the other go to the end in their order. -/
theorem IsBuilt.of_foldlM (built : framework.IsBuilt) {attacks : List (α × α)}
    (done : attacks.foldlM (fun framework attack => framework.addAttack attack.1 attack.2)
      framework = .ok later) :
    later.IsBuilt ∧ later.arguments = framework.arguments ∧
      later.attackList = framework.attackList ++ attacks := by
  induction attacks generalizing framework with
  | nil =>
    cases done
    exact ⟨built, rfl, (List.append_nil _).symm⟩
  | cons attack rest ih =>
    rw [List.foldlM_cons] at done
    obtain ⟨next, added, others⟩ := bind_eq_ok.mp done
    obtain ⟨whole, same, listed⟩ := ih (.addAttack built added) others
    obtain ⟨_, _, arguments, attacks⟩ := built.consistent.of_addAttack added
    refine ⟨whole, same.trans arguments, ?_⟩
    rw [listed, attacks, List.append_assoc, List.singleton_append]

/-- The framework of some labels and attacks has them in their order. -/
theorem isBuilt_ofLists {labels : List α} {attacks : List (α × α)}
    (done : ofLists labels attacks = .ok framework) :
    framework.IsBuilt ∧ framework.arguments.labels = labels ∧
      framework.attackList = attacks := by
  rw [ofLists] at done
  obtain ⟨set, inserted, others⟩ := bind_eq_ok.mp done
  obtain ⟨built, listed⟩ := ArgumentSet.isBuilt_ofLabels inserted
  obtain ⟨whole, arguments, attacks⟩ := (IsBuilt.ofArguments built).of_foldlM others
  exact ⟨whole, (congrArg ArgumentSet.labels arguments).trans listed, attacks⟩

end Framework

end Argumentation
