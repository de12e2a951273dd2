import Argumentation.Proofs.Format.Apx.Terminators
import Mathlib.Order.Bounds.Basic
import Mathlib.Tactic.IntervalCases

/-!
# Where a rejection is reported

A reading that fails gives the index of a line. This is the first line that is not accepted with
the lines before it, unless what is wrong with it is that it repeats the name of an argument. Names
are only compared at the first attack, so the line that is reported then is the first one that is
neither blank nor the declaration of an argument; when there is none, no line is reported at all.
-/

namespace Argumentation.Format.Apx

/-- A line that declares an argument of this name. -/
def Introduces (line : List Char) (name : String) : Prop :=
  ∃ item, Reads line item ∧ named? item = some name

/-- A line that may stand before the first attack: a blank one, or the declaration of an
argument. -/
def Preliminary (line : List Char) : Prop :=
  ∃ item, Reads line item ∧ joined? item = none

/-- A line that declares an argument again, with no attack before it. -/
structure Repeats (before : List (List Char)) (line : List Char) (name : String) : Prop where
  again : Introduces line name
  already : ∃ earlier, earlier ∈ before ∧ Introduces earlier name
  preliminary : forall earlier, earlier ∈ before -> Preliminary earlier

section Lines

variable {line : List Char} {lines : List (List Char)} {item : Option Declaration}
  {items : List (Option Declaration)} {name : String}

theorem introduces_iff (reads : Reads line item) :
    Introduces line name ↔ named? item = some name := by
  constructor
  · rintro ⟨other, again, named⟩
    rwa [reads.unique again]
  · exact fun named => ⟨item, reads, named⟩

theorem preliminary_iff (reads : Reads line item) : Preliminary line ↔ joined? item = none := by
  constructor
  · rintro ⟨other, again, unjoined⟩
    rwa [reads.unique again]
  · exact fun unjoined => ⟨item, reads, unjoined⟩

/-- The declaration of an argument may stand before the first attack. -/
theorem Introduces.preliminary (introduces : Introduces line name) : Preliminary line := by
  obtain ⟨item, reads, named⟩ := introduces
  cases item with
  | none => cases named
  | some declaration =>
    cases declaration with
    | argument => exact ⟨_, reads, rfl⟩
    | attack => cases named

/-- A line that can be read is an attack unless it may stand before one. -/
theorem Reads.eq_attack (reads : Reads line item) (joins : ¬ Preliminary line) :
    ∃ attacker attacked, item = some (.attack attacker attacked) := by
  cases item with
  | none => exact absurd ⟨_, reads, rfl⟩ joins
  | some declaration =>
    cases declaration with
    | argument => exact absurd ⟨_, reads, rfl⟩ joins
    | attack attacker attacked => exact ⟨attacker, attacked, rfl⟩

theorem exists_introduces_iff (reads : List.Forall₂ Reads lines items) :
    (∃ line, line ∈ lines ∧ Introduces line name) ↔ name ∈ items.filterMap named? := by
  induction reads with
  | nil => simp
  | cons first _ ih =>
    simp only [List.exists_mem_cons_iff, introduces_iff first, ih, List.mem_filterMap]

theorem forall_preliminary_iff (reads : List.Forall₂ Reads lines items) :
    (forall line, line ∈ lines -> Preliminary line) ↔ items.filterMap joined? = [] := by
  rw [List.filterMap_eq_nil_iff]
  induction reads with
  | nil => simp
  | cons first _ ih => simp only [List.forall_mem_cons, preliminary_iff first, ih]

end Lines

section Fault

variable {lines before after : List (List Char)} {line : List Char}

theorem accepted_nil : Accepted [] :=
  accepted_iff.mpr ⟨[], .nil, by decide, by decide, by decide, by decide⟩

/-- The first lines among those that are accepted are accepted too. -/
theorem Accepted.of_append (accepted : Accepted (before ++ after)) : Accepted before := by
  induction after using List.reverseRecOn with
  | nil => rwa [List.append_nil] at accepted
  | append_singleton after last ih =>
    rw [← List.append_assoc] at accepted
    obtain ⟨items, reads, sound⟩ := accepted_iff.mp accepted
    obtain ⟨earlier, item, rfl, reads, _⟩ := forall₂_append_singleton_left.mp reads
    exact ih (accepted_iff.mpr ⟨earlier, reads, sound.of_append_singleton.1⟩)

theorem refused_of_fault (fault : ¬ Accepted (before ++ [line])) :
    ¬ Accepted (before ++ line :: after) := by
  rw [List.append_cons]
  exact fun accepted => fault accepted.of_append

/-- Among lines that are refused, there is a first one that is so with the lines before it. -/
theorem exists_fault (refused : ¬ Accepted lines) : ∃ before line after,
    lines = before ++ line :: after ∧ Accepted before ∧ ¬ Accepted (before ++ [line]) := by
  induction lines using List.reverseRecOn with
  | nil => exact absurd accepted_nil refused
  | append_singleton lines last ih =>
    by_cases accepted : Accepted lines
    · exact ⟨lines, last, [], rfl, accepted, refused⟩
    · obtain ⟨before, line, after, rfl, first, fault⟩ := ih accepted
      exact ⟨before, line, after ++ [last], by simp, first, fault⟩

theorem isLeast_fault (accepted : Accepted before) (fault : ¬ Accepted (before ++ [line])) :
    IsLeast {index | ¬ Accepted ((before ++ line :: after).take (index + 1))} before.length := by
  constructor
  · intro taken
    rw [List.append_cons, List.take_left' (by simp)] at taken
    exact fault taken
  · intro index refused
    by_contra later
    have inside : index + 1 ≤ before.length := Nat.not_le.mp later
    rw [Set.mem_ofPred_eq, List.take_append_of_le_length inside] at refused
    rw [← List.take_append_drop (index + 1) before] at accepted
    exact refused accepted.of_append

end Fault

section Repetition

variable {lines before after : List (List Char)} {line : List Char} {state : State}
  {items : List (Option Declaration)} {name : String} {warnings : List Warning}

theorem Accepted.distinct (accepted : Accepted lines) (reads : List.Forall₂ Reads lines items) :
    (items.filterMap named?).Nodup := by
  obtain ⟨_, done⟩ := accepted
  exact (declared_of_read reads done).1.distinct

/-- As long as there is no attack, the names are only collected. -/
theorem eq_declaring_of_passes (passed : Passes step (.declaring []) lines state warnings)
    (preliminary : forall line, line ∈ lines -> Preliminary line) :
    ∃ items, List.Forall₂ Reads lines items ∧ state = .declaring (items.filterMap named?) := by
  obtain ⟨items, reads⟩ := exists_reads_of_passes passed
  have stands := (reflects_of_reads reads passed).stands
  cases state with
  | declaring names => exact ⟨items, reads, congrArg _ stands.1⟩
  | attacking => exact absurd ((forall_preliminary_iff reads).mp preliminary) stands.1

/-- Lines that pass but are refused have no attack among them: the names were not compared yet. -/
theorem preliminary_of_refused (passed : Passes step (.declaring []) lines state warnings)
    (refused : ¬ Accepted lines) : forall line, line ∈ lines -> Preliminary line := by
  obtain ⟨items, reads⟩ := exists_reads_of_passes passed
  have stands := (reflects_of_reads reads passed).stands
  cases state with
  | declaring => exact (forall_preliminary_iff reads).mpr stands.2
  | attacking framework =>
    obtain ⟨_, consistent, labels, _⟩ := stands
    refine absurd ((accepted_iff_nodup reads passed).mpr ?_) refused
    exact labels ▸ consistent.arguments.distinct

theorem exists_step_of_preliminary (preliminary : Preliminary line) (index : Nat)
    (names : List String) :
    ∃ later more, step index (String.ofList line) (.declaring names) = (.ok later, more) := by
  obtain ⟨item, reads, unjoined⟩ := preliminary
  obtain ⟨proper, holds, same⟩ := reads.exists_holds
  simp only [same, step_eq_ok_iff holds]
  cases item with
  | none => exact ⟨_, _, .blank⟩
  | some declaration =>
    cases declaration with
    | argument => exact ⟨_, _, .argument⟩
    | attack => cases unjoined

/-- A line that passes but is the first to be refused repeats a name. -/
theorem exists_repeats (all : Passes step (.declaring []) (before ++ line :: after) state warnings)
    (accepted : Accepted before) (fault : ¬ Accepted (before ++ [line])) :
    ∃ name, Repeats before line name := by
  rw [List.append_cons] at all
  obtain ⟨_, _, passed⟩ := all.of_append
  have preliminary := preliminary_of_refused passed fault
  obtain ⟨items, reads⟩ := exists_reads_of_passes passed
  have repeated := mt (accepted_iff_nodup reads passed).mpr fault
  obtain ⟨earlier, item, rfl, reads, last⟩ := forall₂_append_singleton_left.mp reads
  rw [filterMap_append_singleton] at repeated
  cases named : named? item with
  | none =>
    rw [named, Option.toList_none, List.append_nil] at repeated
    exact absurd (accepted.distinct reads) repeated
  | some name =>
    rw [named, Option.toList_some, nodup_append_singleton, not_and'] at repeated
    have known := Classical.not_not.mp (repeated (accepted.distinct reads))
    exact ⟨name, (introduces_iff last).mpr named, (exists_introduces_iff reads).mpr known,
      fun other member => preliminary other (List.mem_append_left _ member)⟩

/-- A repeated name is what is found when the names are compared. -/
theorem Repeats.declare_eq (repeats : Repeats before line name) (accepted : Accepted before)
    (reads : List.Forall₂ Reads (before ++ line :: after) items) :
    declare (items.filterMap named?) = .error (.ofError (.duplicateArgument name)) := by
  have first := List.forall₂_take before.length reads
  have others := List.forall₂_drop before.length reads
  rw [List.take_left] at first
  rw [List.drop_left, List.forall₂_cons_left_iff] at others
  obtain ⟨item, rest, last, _, split⟩ := others
  have named := (introduces_iff last).mp repeats.again
  have known := (exists_introduces_iff first).mp repeats.already
  rw [← List.take_append_drop before.length items, split, List.filterMap_append,
    List.filterMap_cons_some named, declare, ArgumentSet.ofLabels_of_mem (accepted.distinct first)
      known]
  rfl

/-- The names are compared at the first attack, so it is there that a repeated one is found. -/
theorem Repeats.step_eq {attacker attacked : WrittenName} {other : List Char}
    (repeats : Repeats before line name) (accepted : Accepted before)
    (reads : List.Forall₂ Reads (before ++ line :: after) items)
    (attack : Reads other (some (.attack attacker attacked))) (index : Nat) :
    step index (String.ofList other) (.declaring (items.filterMap named?)) =
      (.error (.ofError (.duplicateArgument name)), paddingWarnings index [attacker, attacked]) := by
  obtain ⟨proper, holds, same⟩ := attack.exists_holds
  obtain _ | declares := holds
  rw [same, step_attack declares, finish, repeats.declare_eq accepted reads]
  rfl

end Repetition

/-- What a report tells about the line at fault. -/
structure Blames (before : List (List Char)) (line : List Char) (after : List (List Char))
    (report : Report) : Prop where
  /-- The outermost message gives its index, counted from zero, unless it repeats a name. -/
  located : (forall name, ¬ Repeats before line name) ->
    report.messages.head? = some ("while reading line with index " ++ toString before.length)
  /-- When it repeats a name, the outermost message gives the index of the first line after it that
  is neither blank nor the declaration of an argument, and the repetition is the cause when this
  line is an attack; when there is no such line, it is only said that the argument is already
  defined. -/
  repeated : forall name, Repeats before line name ->
    (∃ (between : List (List Char)) (other : List Char) (rest : List (List Char)),
      after = between ++ other :: rest ∧ (forall line, line ∈ between -> Preliminary line) ∧
      ¬ Preliminary other ∧
      report.messages.head? = some ("while reading line with index " ++
        toString (before.length + 1 + between.length)) ∧
      forall item, Reads other item ->
        report.messages.tail = ["argument " ++ name ++ " is already defined"]) ∨
    (forall line, line ∈ after -> Preliminary line) ∧
      report.messages = ["argument " ++ name ++ " is already defined"]

section Report

variable {before after between rest : List (List Char)} {line other : List Char} {state : State}
  {warnings more : List Warning} {report failure : Report}

/-- All lines pass, and the names are compared at the end. -/
theorem Blames.at_end
    (passed : Passes step (.declaring []) (before ++ line :: after) state warnings)
    (finished : finish state = .error report) (accepted : Accepted before)
    (fault : ¬ Accepted (before ++ [line])) : Blames before line after report := by
  have preliminary := preliminary_of_refused passed (refused_of_fault fault)
  obtain ⟨items, reads, rfl⟩ := eq_declaring_of_passes passed preliminary
  obtain ⟨other, again⟩ := exists_repeats passed accepted fault
  refine ⟨fun none => absurd again (none other), fun name repeats => .inr ⟨?_, ?_⟩⟩
  · exact fun line member => preliminary line (by simp [member])
  · cases finished.symm.trans (repeats.declare_eq accepted reads)
    rfl

/-- The line at fault is the one that fails, so it repeats no name. -/
theorem Blames.at_fault (passed : Passes step (.declaring []) before state warnings)
    (failed : step before.length (String.ofList line) state = (.error failure, more)) :
    Blames before line after (failure.within (.readingLine before.length)) := by
  refine ⟨fun _ => rfl, fun name repeats => ?_⟩
  obtain ⟨items, _, rfl⟩ := eq_declaring_of_passes passed repeats.preliminary
  obtain ⟨_, _, handled⟩ :=
    exists_step_of_preliminary repeats.again.preliminary before.length (items.filterMap named?)
  cases failed.symm.trans handled

/-- The line at fault passes, and a line after it fails. -/
theorem Blames.after_fault
    (passed : Passes step (.declaring []) (before ++ line :: between) state warnings)
    (failed : step (before ++ line :: between).length (String.ofList other) state =
      (.error failure, more))
    (accepted : Accepted before) (fault : ¬ Accepted (before ++ [line])) :
    Blames before line (between ++ other :: rest)
      (failure.within (.readingLine (before ++ line :: between).length)) := by
  have preliminary := preliminary_of_refused passed (refused_of_fault fault)
  obtain ⟨items, reads, rfl⟩ := eq_declaring_of_passes passed preliminary
  obtain ⟨again, repeats⟩ := exists_repeats passed accepted fault
  have joins : ¬ Preliminary other := by
    intro allowed
    obtain ⟨_, _, handled⟩ := exists_step_of_preliminary allowed _ _
    cases failed.symm.trans handled
  refine ⟨fun none => absurd repeats (none again), fun name repeats => .inl ?_⟩
  refine ⟨between, other, rest, rfl, ?_, joins, ?_, fun item last => ?_⟩
  · exact fun line member => preliminary line (by simp [member])
  · rw [List.length_append, List.length_cons, ← Nat.add_assoc, Nat.add_right_comm]
    rfl
  · obtain ⟨attacker, attacked, rfl⟩ := last.eq_attack joins
    cases failed.symm.trans (repeats.step_eq accepted reads last _)
    rfl

end Report

/-- When a text is not read, there is a first line that is not accepted with the lines before it.
The outermost message gives the index of this line, unless it repeats the name of an argument with
no attack before it: then a later line is given, or none at all. -/
theorem read_rejected (text : String) (report : Report)
    (rejected : (read (Text.linesOfBytes text.toUTF8)).result = .error report) :
    ∃ (before : List (List Char)) (line : List Char) (after : List (List Char)),
      Text.lines text.toList = before ++ line :: after ∧
      IsLeast {index | ¬ Accepted ((Text.lines text.toList).take (index + 1))} before.length ∧
      Blames before line after report := by
  rw [read_encoded] at rejected
  generalize Text.lines text.toList = lines at rejected ⊢
  have refused : ¬ Accepted lines := by
    rintro ⟨framework, accepted⟩
    cases accepted.symm.trans rejected
  rcases readLines_cases step finish (.declaring []) lines with
    ⟨state, warnings, passed, done⟩ |
    ⟨index, failing, state, warnings, failure, more, found, passed, failed, done⟩
  · rw [read, done] at rejected
    obtain ⟨before, line, after, rfl, accepted, fault⟩ := exists_fault refused
    exact ⟨before, line, after, rfl, isLeast_fault accepted fault,
      .at_end passed rejected accepted fault⟩
  · rw [read, done] at rejected
    cases rejected
    obtain ⟨front, rest, rfl, rfl⟩ := exists_append_of_getElem? found
    rw [List.take_left] at passed
    by_cases accepted : Accepted front
    · have fault : ¬ Accepted (front ++ [failing]) := by
        intro accepted
        obtain ⟨items, reads, sound⟩ := accepted_iff.mp accepted
        obtain ⟨_, _, whole⟩ := exists_passes_of_reads reads sound
        exact Passes.not_of_failed (by simp) (by simpa using passed) failed _ _ whole
      exact ⟨front, failing, rest, rfl, isLeast_fault accepted fault, .at_fault passed failed⟩
    · obtain ⟨before, line, between, rfl, accepted, fault⟩ := exists_fault accepted
      rw [List.append_assoc, List.cons_append]
      exact ⟨before, line, between ++ failing :: rest, rfl, isLeast_fault accepted fault,
        .after_fault passed failed accepted fault⟩

/-- A repeated name that is reported at the attack after it. -/
theorem read_rejected_late :
    (read (Text.linesOfBytes "arg(a).\narg(a).\natt(a,a).\n".toUTF8)).result =
      .error ⟨[.readingLine 2], .refused (.duplicateArgument "a")⟩ ∧
    IsLeast {index | ¬ Accepted
      ((Text.lines "arg(a).\narg(a).\natt(a,a).\n".toList).take (index + 1))} 1 := by
  obtain ⟨before, line, after, _, least, blames⟩ :=
    read_rejected "arg(a).\narg(a).\natt(a,a).\n"
      ⟨[.readingLine 2], .refused (.duplicateArgument "a")⟩ rfl
  refine ⟨rfl, ?_⟩
  have early : before.length ≤ 1 := by
    refine least.2 ?_
    rintro ⟨framework, done⟩
    cases done
  obtain ⟨name, repeats⟩ : ∃ name, Repeats before line name := by
    by_contra none
    have head := blames.located (not_exists.mp none)
    interval_cases before.length
    · exact absurd head (by decide)
    · exact absurd head (by decide)
  obtain ⟨earlier, member, _⟩ := repeats.already
  rwa [Nat.le_antisymm early (List.length_pos_of_mem member)] at least

/-- The line at fault is not always reported: no line is when a name is repeated and there are no
attacks. -/
theorem repeated_unreported :
    IsLeast {index | ¬ Accepted ((Text.lines "arg(a).\narg(a).\n".toList).take (index + 1))} 1 ∧
    ∃ report, (read (Text.linesOfBytes "arg(a).\narg(a).\n".toUTF8)).result = .error report ∧
      report.messages = ["argument a is already defined"] ∧
      report.messages.head? ≠ some "while reading line with index 1" := by
  refine ⟨?_, ⟨[], .refused (.duplicateArgument "a")⟩, rfl, rfl, by decide⟩
  have lines : Text.lines "arg(a).\narg(a).\n".toList =
      ["arg(a).".toList] ++ "arg(a).".toList :: [] := by
    decide
  rw [lines]
  refine isLeast_fault ⟨_, rfl⟩ ?_
  rintro ⟨framework, done⟩
  cases done

end Argumentation.Format.Apx
