import Argumentation.Framework.Basic
import Mathlib.Data.List.Induction
import Mathlib.Data.List.Nodup

/-!
# Consistent frameworks

The tables of a framework agree with its lists: the identifier of a label is its only position, and
the positions kept for an argument are those of the attacks that leave or reach it. Additions keep
this, so what the operations of a framework do can be said in terms of labels alone.
-/

namespace Argumentation

variable {α : Type} [DecidableEq α]

/-- The identifiers of the labels are their positions. -/
def ArgumentSet.Consistent (set : ArgumentSet α) : Prop :=
  forall label id, set.ids.get? label = some id ↔ set.labels[id]? = some label

namespace ArgumentSet.Consistent

variable {set : ArgumentSet α}

theorem empty : ({} : ArgumentSet α).Consistent := by
  intro label id
  simp [Table.get?]

theorem isSome_iff (consistent : set.Consistent) (label : α) :
    (set.ids.get? label).isSome = true ↔ label ∈ set.labels := by
  rw [Option.isSome_iff_exists, List.mem_iff_getElem?]
  exact exists_congr fun id => consistent label id

theorem contains_iff (consistent : set.Consistent) (label : α) :
    set.contains label = true ↔ label ∈ set.labels :=
  consistent.isSome_iff label

/-- A label has one position only. -/
theorem position_unique (consistent : set.Consistent) {label : α} {first second : Nat}
    (atFirst : set.labels[first]? = some label) (atSecond : set.labels[second]? = some label) :
    first = second := by
  have left := (consistent label first).mpr atFirst
  have right := (consistent label second).mpr atSecond
  exact Option.some.inj (left.symm.trans right)

theorem distinct (consistent : set.Consistent) : set.labels.Nodup := by
  rw [List.nodup_iff_getElem?_ne_getElem?]
  intro first second before inside same
  obtain ⟨label, found⟩ : ∃ label, set.labels[second]? = some label :=
    ⟨_, List.getElem?_eq_getElem inside⟩
  exact Nat.ne_of_lt before (consistent.position_unique (same.trans found) found)

theorem find_of_position (consistent : set.Consistent) {label : α} {id : Nat}
    (found : set.labels[id]? = some label) : set.find label = .ok ⟨id, label⟩ := by
  simp [find, (consistent label id).mpr found, argument?, found]

theorem find_of_mem (consistent : set.Consistent) {label : α} (member : label ∈ set.labels) :
    ∃ id, set.labels[id]? = some label ∧ set.find label = .ok ⟨id, label⟩ := by
  obtain ⟨id, found⟩ := List.mem_iff_getElem?.mp member
  exact ⟨id, found, consistent.find_of_position found⟩

theorem find_of_not_mem (consistent : set.Consistent) {label : α} (absent : label ∉ set.labels) :
    set.find label = .error (.unknownArgument label) := by
  have none : set.ids.get? label = none := by
    rw [← Option.not_isSome_iff_eq_none, consistent.isSome_iff]
    exact absent
  simp [find, none]

theorem insert_of_mem (consistent : set.Consistent) {label : α} (member : label ∈ set.labels) :
    set.insert label = .error (.duplicateArgument label) := by
  simp [insert, (consistent.contains_iff label).mpr member]

/-- A new label goes to the end. -/
theorem insert_of_not_mem (consistent : set.Consistent) {label : α}
    (absent : label ∉ set.labels) :
    ∃ later, set.insert label = .ok later ∧ later.Consistent ∧
      later.labels = set.labels ++ [label] := by
  have refused : set.contains label = false := by
    rw [← Bool.not_eq_true, consistent.contains_iff]
    exact absent
  refine ⟨⟨set.labels ++ [label], set.ids.insert label set.size⟩, by simp [insert, refused], ?_,
    rfl⟩
  intro other id
  rw [Table.get?_insert, size]
  by_cases same : label = other
  · subst same
    rw [if_pos rfl, Option.some.injEq, List.getElem?_append]
    by_cases before : id < set.labels.length
    · have different : set.labels[id]? ≠ some label := fun found =>
        absent (List.mem_of_getElem? found)
      simp only [before, if_true, different, iff_false]
      omega
    · simp only [before, if_false, List.getElem?_singleton]
      by_cases next : id = set.labels.length
      · simp [next]
      · simp [show id - set.labels.length ≠ 0 by omega, Ne.symm next]
  · rw [if_neg same, consistent, List.getElem?_append]
    by_cases before : id < set.labels.length
    · simp [before]
    · have outside : set.labels[id]? = none := List.getElem?_eq_none_iff.mpr (by omega)
      simp only [before, if_false, List.getElem?_singleton, outside]
      by_cases next : id - set.labels.length = 0 <;> simp [next, same]

end ArgumentSet.Consistent

/-- The positions kept for each argument are those of the attacks that have it at one end, in
increasing order. -/
def Indexes (index : List (List Nat)) (size : Nat) (attacks : List (Nat × Nat))
    (endOf : Nat × Nat -> Nat) : Prop :=
  index = (List.range size).map fun id => attacks.findIdxs fun attack => endOf attack = id

section Indexes

variable {index : List (List Nat)} {size : Nat} {attacks : List (Nat × Nat)}
  {endOf : Nat × Nat -> Nat}

theorem Indexes.getElem?_eq (indexes : Indexes index size attacks endOf) {id : Nat}
    (inside : id < size) :
    index[id]? = some (attacks.findIdxs fun attack => endOf attack = id) := by
  rw [indexes, List.getElem?_map, List.getElem?_range inside, Option.map_some]

/-- A new argument has no attacks. -/
theorem Indexes.addNode (indexes : Indexes index size attacks endOf)
    (inside : forall attack, attack ∈ attacks -> endOf attack < size) :
    Indexes (index ++ [[]]) (size + 1) attacks endOf := by
  have none : (attacks.findIdxs fun attack => endOf attack = size) = [] := by
    rw [List.findIdxs_eq_nil_iff]
    intro attack member
    exact decide_eq_false (Nat.ne_of_lt (inside attack member))
  rw [Indexes, List.range_succ, List.map_append, ← indexes, List.map_singleton, none]

/-- A new attack is the last one. -/
theorem Indexes.addAttack (indexes : Indexes index size attacks endOf) (attack : Nat × Nat) :
    Indexes (index.modify (endOf attack) (· ++ [attacks.length])) size (attacks ++ [attack])
      endOf := by
  have added (id : Nat) : ((attacks ++ [attack]).findIdxs fun other => endOf other = id) =
      (attacks.findIdxs fun other => endOf other = id) ++
        if endOf attack = id then [attacks.length] else [] := by
    rw [List.findIdxs_append, List.findIdxs_singleton, Nat.zero_add]
    simp only [decide_eq_true_eq]
  refine List.ext_getElem? fun id => ?_
  rw [List.getElem?_modify, indexes, List.getElem?_map, List.getElem?_map]
  by_cases inside : id < size
  · rw [List.getElem?_range inside, Option.map_some, Option.map_some, added]
    by_cases same : endOf attack = id <;> simp [same]
  · rw [List.getElem?_eq_none (by simpa using inside)]
    rfl

end Indexes

/-- The items at the positions where a test succeeds are those that pass it. -/
theorem filterMap_findIdxs {β : Type} (items : List β) (test : β -> Bool) :
    (items.findIdxs test).filterMap (items[·]?) = items.filter test := by
  induction items using List.reverseRecOn with
  | nil => rfl
  | append_singleton items item ih =>
    have before : (items.findIdxs test).filterMap ((items ++ [item])[·]?) =
        (items.findIdxs test).filterMap (items[·]?) := by
      refine List.filterMap_congr fun position member => ?_
      rw [List.getElem?_append_left (by simpa using List.lt_add_of_mem_findIdxs position member)]
    rw [List.findIdxs_append, List.filterMap_append, before, ih, List.filter_append,
      List.findIdxs_singleton, Nat.zero_add]
    cases passes : test item <;> simp [passes]

/-- The tables of a framework agree with its lists, and its attacks join its arguments. -/
structure Framework.Consistent (framework : Framework α) : Prop where
  arguments : framework.arguments.Consistent
  ends : forall source target, (source, target) ∈ framework.attacks ->
    source < framework.arguments.size ∧ target < framework.arguments.size
  distinct : framework.attacks.Nodup
  listed : forall attack, framework.joins attack = true ↔ attack ∈ framework.attacks
  outgoing : Indexes framework.outgoing framework.arguments.size framework.attacks Prod.fst
  incoming : Indexes framework.incoming framework.arguments.size framework.attacks Prod.snd

namespace Framework

variable {framework : Framework α}

omit [DecidableEq α] in
theorem attackLabels?_eq_some {source target : Nat} {attacker attacked : α} :
    framework.attackLabels? (source, target) = some (attacker, attacked) ↔
      framework.arguments.labels[source]? = some attacker ∧
        framework.arguments.labels[target]? = some attacked := by
  simp [attackLabels?, Option.bind_eq_some_iff]

omit [DecidableEq α] in
theorem mem_attackList {attacker attacked : α} :
    (attacker, attacked) ∈ framework.attackList ↔
      ∃ source target, (source, target) ∈ framework.attacks ∧
        framework.arguments.labels[source]? = some attacker ∧
        framework.arguments.labels[target]? = some attacked := by
  simp only [attackList, List.mem_filterMap, Prod.exists, attackLabels?_eq_some]

omit [DecidableEq α] in
theorem ends_mem_labels {attacker attacked : α}
    (member : (attacker, attacked) ∈ framework.attackList) :
    attacker ∈ framework.arguments.labels ∧ attacked ∈ framework.arguments.labels := by
  obtain ⟨source, target, _, first, second⟩ := mem_attackList.mp member
  exact ⟨List.mem_of_getElem? first, List.mem_of_getElem? second⟩

namespace Consistent

theorem empty : ({} : Framework α).Consistent where
  arguments := .empty
  ends := by simp
  distinct := List.nodup_nil
  listed := by simp [joins]
  outgoing := rfl
  incoming := rfl

/-- The labels of an attack are those of its identifiers. -/
theorem mem_attacks_iff (consistent : framework.Consistent) {source target : Nat}
    {attacker attacked : α} (first : framework.arguments.labels[source]? = some attacker)
    (second : framework.arguments.labels[target]? = some attacked) :
    (source, target) ∈ framework.attacks ↔ (attacker, attacked) ∈ framework.attackList := by
  rw [mem_attackList]
  constructor
  · exact fun member => ⟨source, target, member, first, second⟩
  · rintro ⟨left, right, member, foundLeft, foundRight⟩
    rw [consistent.arguments.position_unique first foundLeft,
      consistent.arguments.position_unique second foundRight]
    exact member

theorem hasAttack_iff (consistent : framework.Consistent) {attacker attacked : α} :
    framework.hasAttack attacker attacked = true ↔
      (attacker, attacked) ∈ framework.attackList := by
  by_cases known : attacker ∈ framework.arguments.labels ∧ attacked ∈ framework.arguments.labels
  · obtain ⟨source, first, left⟩ := consistent.arguments.find_of_mem known.1
    obtain ⟨target, second, right⟩ := consistent.arguments.find_of_mem known.2
    simp only [hasAttack, left, right, consistent.listed, consistent.mem_attacks_iff first second]
  · refine iff_of_false ?_ (mt ends_mem_labels known)
    rw [not_and_or] at known
    rcases known with absent | absent
    · simp [hasAttack, consistent.arguments.find_of_not_mem absent]
    · cases found : framework.arguments.find attacker <;>
        simp [hasAttack, found, consistent.arguments.find_of_not_mem absent]

/-- At the positions of the attacks with a given end are the attacks with its label there, in their
order. -/
theorem attacksAt_findIdxs (consistent : framework.Consistent) {endOf : Nat × Nat -> Nat}
    {labelOf : α × α -> α}
    (atEnd : forall attack labels, framework.attackLabels? attack = some labels ->
      framework.arguments.labels[endOf attack]? = some (labelOf labels))
    {id : Nat} {label : α} (found : framework.arguments.labels[id]? = some label) :
    framework.attacksAt (framework.attacks.findIdxs fun attack => endOf attack = id) =
      framework.attackList.filter fun labels => labelOf labels = label := by
  have chosen : (framework.attacks.findIdxs fun attack => endOf attack = id).filterMap
      (framework.attacks[·]?) = framework.attacks.filter fun attack => endOf attack = id :=
    filterMap_findIdxs _ _
  calc framework.attacksAt (framework.attacks.findIdxs fun attack => endOf attack = id)
      = (framework.attacks.filter fun attack => endOf attack = id).filterMap
          framework.attackLabels? := by
        rw [← chosen, List.filterMap_filterMap]
        rfl
    _ = framework.attackList.filter fun labels => labelOf labels = label := by
        rw [List.filterMap_filter, attackList, List.filter_filterMap]
        refine List.filterMap_congr fun attack _ => ?_
        cases named : framework.attackLabels? attack with
        | none => simp
        | some labels =>
          have other := atEnd attack labels named
          have same : endOf attack = id ↔ labelOf labels = label := by
            constructor
            · rintro rfl
              exact Option.some.inj (other.symm.trans found)
            · rintro rfl
              exact consistent.arguments.position_unique other found
          by_cases here : endOf attack = id
          · simp [here, same.mp here, Option.filter]
          · simp [here, mt same.mpr here, Option.filter]

/-- The attacks that leave an argument. -/
theorem attacksFrom_eq (consistent : framework.Consistent) {id : Nat} {label : α}
    (found : framework.arguments.labels[id]? = some label) :
    framework.attacksFrom ⟨id, label⟩ =
      framework.attackList.filter fun attack => attack.1 = label := by
  have inside := (List.getElem?_eq_some_iff.mp found).1
  rw [attacksFrom, consistent.outgoing.getElem?_eq inside, Option.getD_some]
  exact consistent.attacksAt_findIdxs (fun _ _ named => (attackLabels?_eq_some.mp named).1) found

/-- The attacks that reach an argument. -/
theorem attacksTo_eq (consistent : framework.Consistent) {id : Nat} {label : α}
    (found : framework.arguments.labels[id]? = some label) :
    framework.attacksTo ⟨id, label⟩ =
      framework.attackList.filter fun attack => attack.2 = label := by
  have inside := (List.getElem?_eq_some_iff.mp found).1
  rw [attacksTo, consistent.incoming.getElem?_eq inside, Option.getD_some]
  exact consistent.attacksAt_findIdxs (fun _ _ named => (attackLabels?_eq_some.mp named).2) found

theorem mem_attacksFrom (consistent : framework.Consistent) {id : Nat} {label : α}
    (found : framework.arguments.labels[id]? = some label) {attacker attacked : α} :
    (attacker, attacked) ∈ framework.attacksFrom ⟨id, label⟩ ↔
      attacker = label ∧ (attacker, attacked) ∈ framework.attackList := by
  simp [consistent.attacksFrom_eq found, and_comm]

theorem mem_attacksTo (consistent : framework.Consistent) {id : Nat} {label : α}
    (found : framework.arguments.labels[id]? = some label) {attacker attacked : α} :
    (attacker, attacked) ∈ framework.attacksTo ⟨id, label⟩ ↔
      attacked = label ∧ (attacker, attacked) ∈ framework.attackList := by
  simp [consistent.attacksTo_eq found, and_comm]

/-- Attacks are listed once. -/
theorem nodup_attackList (consistent : framework.Consistent) : framework.attackList.Nodup := by
  refine consistent.distinct.filterMap ?_
  rintro ⟨left, right⟩ ⟨source, target⟩ ⟨attacker, attacked⟩ first second
  obtain ⟨atLeft, atRight⟩ := attackLabels?_eq_some.mp first
  obtain ⟨atSource, atTarget⟩ := attackLabels?_eq_some.mp second
  rw [consistent.arguments.position_unique atLeft atSource,
    consistent.arguments.position_unique atRight atTarget]

theorem addArgument_of_mem (consistent : framework.Consistent) {label : α}
    (member : label ∈ framework.arguments.labels) :
    framework.addArgument label = .error (.duplicateArgument label) := by
  simp [addArgument, consistent.arguments.insert_of_mem member]
  rfl

/-- A new argument is the last one and has no attacks. -/
theorem addArgument_of_not_mem (consistent : framework.Consistent) {label : α}
    (absent : label ∉ framework.arguments.labels) :
    ∃ later, framework.addArgument label = .ok later ∧ later.Consistent ∧
      later.arguments.labels = framework.arguments.labels ++ [label] ∧
      later.attackList = framework.attackList := by
  obtain ⟨arguments, inserted, table, labels⟩ := consistent.arguments.insert_of_not_mem absent
  have size : arguments.size = framework.arguments.size + 1 := by
    simp [ArgumentSet.size, labels]
  have added : framework.addArgument label = .ok { framework with
      arguments
      outgoing := framework.outgoing ++ [[]]
      incoming := framework.incoming ++ [[]] } := by
    rw [addArgument, inserted]
    rfl
  refine ⟨_, added, ⟨table, ?_, consistent.distinct, consistent.listed, ?_, ?_⟩, labels, ?_⟩
  · intro source target member
    obtain ⟨first, second⟩ := consistent.ends source target member
    rw [size]
    exact ⟨Nat.lt_succ_of_lt first, Nat.lt_succ_of_lt second⟩
  · exact size ▸ consistent.outgoing.addNode fun attack member => (consistent.ends _ _ member).1
  · exact size ▸ consistent.incoming.addNode fun attack member => (consistent.ends _ _ member).2
  · refine List.filterMap_congr ?_
    rintro ⟨source, target⟩ member
    obtain ⟨first, second⟩ := consistent.ends source target member
    simp only [ArgumentSet.size] at first second
    simp [attackLabels?, labels, List.getElem?_append, first, second]

/-- A new attack between known arguments is the last one. -/
theorem addAttack_of_not_mem (consistent : framework.Consistent) {attacker attacked : α}
    (first : attacker ∈ framework.arguments.labels)
    (second : attacked ∈ framework.arguments.labels)
    (absent : (attacker, attacked) ∉ framework.attackList) :
    ∃ later, framework.addAttack attacker attacked = .ok later ∧ later.Consistent ∧
      later.arguments = framework.arguments ∧
      later.attackList = framework.attackList ++ [(attacker, attacked)] := by
  obtain ⟨source, atSource, left⟩ := consistent.arguments.find_of_mem first
  obtain ⟨target, atTarget, right⟩ := consistent.arguments.find_of_mem second
  have new : (source, target) ∉ framework.attacks :=
    mt (consistent.mem_attacks_iff atSource atTarget).mp absent
  have insideSource := (List.getElem?_eq_some_iff.mp atSource).1
  have insideTarget := (List.getElem?_eq_some_iff.mp atTarget).1
  have added : framework.addAttack attacker attacked = .ok { framework with
      attacks := framework.attacks ++ [(source, target)]
      attackSet := framework.attackSet.insert (source, target) ()
      outgoing := framework.outgoing.modify source (· ++ [framework.attacks.length])
      incoming := framework.incoming.modify target (· ++ [framework.attacks.length]) } := by
    rw [addAttack, left, right]
    exact if_neg (mt (consistent.listed _).mp new)
  refine ⟨_, added, ⟨consistent.arguments, ?_, ?_, fun attack => ?_, ?_, ?_⟩, rfl, ?_⟩
  · intro one other member
    rcases List.mem_append.mp member with old | added
    · exact consistent.ends one other old
    · cases List.mem_singleton.mp added
      exact ⟨insideSource, insideTarget⟩
  · refine List.nodup_append.mpr ⟨consistent.distinct, List.nodup_singleton _, ?_⟩
    intro one member other single same
    rw [same, List.mem_singleton.mp single] at member
    exact new member
  · rw [joins, Table.get?_insert, List.mem_append, List.mem_singleton, ← consistent.listed, joins]
    by_cases same : (source, target) = attack <;> simp [same, Ne.symm]
  · exact consistent.outgoing.addAttack (source, target)
  · exact consistent.incoming.addAttack (source, target)
  · simp only [attackList, List.filterMap_append]
    congr 1
    simp [attackLabels?, atSource, atTarget]

end Consistent

end Framework

end Argumentation
