import Argumentation.Proofs.Format.Progress
import Argumentation.Proofs.Format.Tgf.Elements
import Argumentation.Proofs.Framework.Construction
import Mathlib.Order.Bounds.Defs

/-!
# Instances in the trivial graph format

A text describes a framework when the lines before its first separator each name a new argument and
the later ones each name a new attack between these arguments, blank lines and separators apart. A
text is read exactly when it describes a framework, and this framework is what is read. A text that
is not read fails at the first line with which its beginning describes none.
-/

namespace Argumentation.Format.Tgf

open Text (Blank Padded)

/-- A line that separates arguments from attacks: a single `#` once trimmed. -/
def IsSeparator (line : List Char) : Prop :=
  Text.trim line = ['#']

instance (line : List Char) : Decidable (IsSeparator line) :=
  inferInstanceAs (Decidable (Text.trim line = ['#']))

/-- Whether a separator is among some lines. -/
def Separated (lines : List (List Char)) : Prop :=
  ∃ line, line ∈ lines ∧ IsSeparator line

instance (lines : List (List Char)) : Decidable (Separated lines) :=
  inferInstanceAs (Decidable (∃ line, line ∈ lines ∧ IsSeparator line))

/-- The lines before the first separator that are not blank. -/
def argumentLines (lines : List (List Char)) : List (List Char) :=
  (lines.takeWhile fun line => ¬ IsSeparator line).filter fun line => ¬ Blank line

/-- The lines after the first separator that are neither blank nor separators. -/
def attackLines (lines : List (List Char)) : List (List Char) :=
  (lines.dropWhile fun line => ¬ IsSeparator line).filter fun line =>
    ¬ Blank line ∧ ¬ IsSeparator line

/-- Lines that describe a framework by its arguments and its attacks, in their order. -/
structure Describes (lines : List (List Char)) (labels : List String)
    (attacks : List (String × String)) : Prop where
  arguments : List.Forall₂ (fun line label => Names line (.argument label))
    (argumentLines lines) labels
  joins : List.Forall₂ (fun line (attack : String × String) =>
    Names line (.attack attack.1 attack.2)) (attackLines lines) attacks
  distinct : labels.Nodup
  once : attacks.Nodup
  declared : forall attack, attack ∈ attacks -> attack.1 ∈ labels ∧ attack.2 ∈ labels

/-- The positions of the separators after the first one. -/
def repeatedSeparators (lines : List (List Char)) : List Nat :=
  (lines.findIdxs fun line => IsSeparator line).tail

/-- Lines that are read when there are no others. -/
def Accepted (lines : List (List Char)) : Prop :=
  ∃ framework, (read (lines.map fun line => .ok (String.ofList line))).result = .ok framework

section Cut

variable {β : Type} (keeps : β -> Bool) (items : List β) (item : β)

theorem takeWhile_append_singleton :
    (items ++ [item]).takeWhile keeps =
      items.takeWhile keeps ++ if items.all keeps && keeps item then [item] else [] := by
  induction items with
  | nil => cases kept : keeps item <;> simp [kept]
  | cons first items ih => cases kept : keeps first <;> simp [kept, ih]

theorem dropWhile_append_singleton :
    (items ++ [item]).dropWhile keeps =
      items.dropWhile keeps ++ if items.all keeps && keeps item then [] else [item] := by
  induction items with
  | nil => cases kept : keeps item <;> simp [kept]
  | cons first items ih => cases kept : keeps first <;> simp [kept, ih]

end Cut

section Lines

variable {line : List Char} {lines : List (List Char)} {element : Element String}

theorem IsSeparator.not_blank (separator : IsSeparator line) : ¬ Blank line := by
  intro blank
  have empty : Text.trim line = [] := Text.trim_padded .nil ⟨line, [], blank, .nil, by simp⟩
  rw [separator] at empty
  cases empty

theorem Names.not_blank (named : Names line element) : ¬ Blank line := by
  intro blank
  have read := readElement?_eq_some_iff.mpr named
  rw [readElement?, readLabels?, Text.words_blank blank] at read
  cases read

theorem Names.not_separator (named : Names line element) : ¬ IsSeparator line := by
  intro separator
  have word : Text.IsWord ['#'] := by decide
  have words := Text.words_eq_singleton_iff.mpr ⟨word, word.solid.trim_eq_iff.mp separator⟩
  have read := readElement?_eq_some_iff.mpr named
  rw [readElement?, readLabels?, words] at read
  cases read

theorem separated_append_singleton :
    Separated (lines ++ [line]) ↔ Separated lines ∨ IsSeparator line := by
  simp [Separated, or_and_right, exists_or]

theorem all_iff_not_separated :
    (lines.all fun line => ¬ IsSeparator line) = decide (¬ Separated lines) := by
  rw [Bool.eq_iff_iff]
  simp [Separated]

/-- No line after a separator gives an argument. -/
theorem argumentLines_append_singleton :
    argumentLines (lines ++ [line]) = argumentLines lines ++
      if Separated lines ∨ IsSeparator line ∨ Blank line then [] else [line] := by
  rw [argumentLines, takeWhile_append_singleton, List.filter_append, all_iff_not_separated,
    ← argumentLines]
  by_cases separated : Separated lines <;> by_cases separator : IsSeparator line <;>
    by_cases blank : Blank line <;> simp [separated, separator, blank]

theorem attackLines_append_singleton :
    attackLines (lines ++ [line]) = attackLines lines ++
      if Separated lines ∧ ¬ IsSeparator line ∧ ¬ Blank line then [line] else [] := by
  rw [attackLines, dropWhile_append_singleton, List.filter_append, all_iff_not_separated,
    ← attackLines]
  by_cases separated : Separated lines <;> by_cases separator : IsSeparator line <;>
    by_cases blank : Blank line <;> simp [separated, separator, blank]

end Lines

section Describes

variable {lines : List (List Char)} {line : List Char} {labels : List String}
  {attacks : List (String × String)}

theorem describes_nil : Describes [] [] [] :=
  ⟨.nil, .nil, .nil, .nil, by simp⟩

/-- Blank lines and separators add nothing to a description. -/
theorem describes_append_of_idle (idle : Blank line ∨ IsSeparator line) :
    Describes (lines ++ [line]) labels attacks ↔ Describes lines labels attacks := by
  have first : argumentLines (lines ++ [line]) = argumentLines lines := by
    rw [argumentLines_append_singleton, if_pos (.inr idle.symm), List.append_nil]
  have second : attackLines (lines ++ [line]) = attackLines lines := by
    rw [attackLines_append_singleton, if_neg (fun active => idle.elim active.2.2 active.2.1),
      List.append_nil]
  constructor
  · rintro ⟨arguments, joins, distinct, once, declared⟩
    exact ⟨first ▸ arguments, second ▸ joins, distinct, once, declared⟩
  · rintro ⟨arguments, joins, distinct, once, declared⟩
    exact ⟨first ▸ arguments, second ▸ joins, distinct, once, declared⟩

/-- Without a separator there are no attacks. -/
theorem attackLines_eq_nil (separated : ¬ Separated lines) : attackLines lines = [] := by
  have dropped : lines.dropWhile (fun line => ¬ IsSeparator line) = [] := by
    rw [List.dropWhile_eq_nil_iff, ← List.all_eq_true, all_iff_not_separated]
    exact decide_eq_true separated
  rw [attackLines, dropped]
  rfl

/-- Before the first separator a line adds an argument. -/
theorem describes_append_of_not_separated (separated : ¬ Separated lines) (filled : ¬ Blank line)
    (other : ¬ IsSeparator line) :
    Describes (lines ++ [line]) labels attacks ↔ ∃ before label, labels = before ++ [label] ∧
      Names line (.argument label) ∧ label ∉ before ∧ Describes lines before attacks := by
  have first : argumentLines (lines ++ [line]) = argumentLines lines ++ [line] := by
    rw [argumentLines_append_singleton, if_neg (by simp [separated, filled, other])]
  have second : attackLines (lines ++ [line]) = attackLines lines := by
    rw [attackLines_append_singleton, if_neg (fun active => separated active.1), List.append_nil]
  constructor
  · rintro ⟨arguments, joins, distinct, once, _⟩
    rw [first] at arguments
    rw [second] at joins
    obtain ⟨before, label, rfl, arguments, named⟩ := forall₂_append_singleton_left.mp arguments
    obtain ⟨new, distinct⟩ := nodup_append_singleton.mp distinct
    have none : attackLines lines = [] := attackLines_eq_nil separated
    rw [none] at joins
    cases joins
    exact ⟨before, label, rfl, named, new, arguments, none ▸ .nil, distinct, .nil, by simp⟩
  · rintro ⟨before, label, rfl, named, new, described⟩
    refine ⟨first ▸ forall₂_append_singleton_left.mpr ⟨_, _, rfl, described.arguments, named⟩,
      second ▸ described.joins, nodup_append_singleton.mpr ⟨new, described.distinct⟩,
      described.once, fun attack member => ?_⟩
    exact (described.declared attack member).imp (List.mem_append_left _) (List.mem_append_left _)

/-- After a separator a line adds an attack between declared arguments. -/
theorem describes_append_of_separated (separated : Separated lines) (filled : ¬ Blank line)
    (other : ¬ IsSeparator line) :
    Describes (lines ++ [line]) labels attacks ↔ ∃ before attack, attacks = before ++ [attack] ∧
      Names line (.attack attack.1 attack.2) ∧ attack ∉ before ∧
      (attack.1 ∈ labels ∧ attack.2 ∈ labels) ∧ Describes lines labels before := by
  have first : argumentLines (lines ++ [line]) = argumentLines lines := by
    rw [argumentLines_append_singleton, if_pos (.inl separated), List.append_nil]
  have second : attackLines (lines ++ [line]) = attackLines lines ++ [line] := by
    rw [attackLines_append_singleton, if_pos ⟨separated, other, filled⟩]
  constructor
  · rintro ⟨arguments, joins, distinct, once, declared⟩
    rw [first] at arguments
    rw [second] at joins
    obtain ⟨before, attack, rfl, joins, named⟩ := forall₂_append_singleton_left.mp joins
    obtain ⟨new, once⟩ := nodup_append_singleton.mp once
    exact ⟨before, attack, rfl, named, new, declared attack (by simp), arguments, joins, distinct,
      once, fun other member => declared other (List.mem_append_left _ member)⟩
  · rintro ⟨before, attack, rfl, named, new, ends, described⟩
    refine ⟨first ▸ described.arguments,
      second ▸ forall₂_append_singleton_left.mpr ⟨_, _, rfl, described.joins, named⟩,
      described.distinct, nodup_append_singleton.mpr ⟨new, described.once⟩, fun other member => ?_⟩
    rcases List.mem_append.mp member with old | last
    · exact described.declared other old
    · exact List.mem_singleton.mp last ▸ ends

end Describes

section Step

variable {index : Nat} {line : List Char} {lines : List (List Char)} {state later : State}
  {warnings : List Warning}

/-- What a line does to the state of a reading, and the warnings that it raises. -/
inductive Advances (index : Nat) : List Char -> State -> State -> List Warning -> Prop
  | blank {line : List Char} {state : State} (blank : Blank line) :
      Advances index line state state []
  | separator {line : List Char} {state : State} (separator : IsSeparator line) :
      Advances index line state { state with separated := true }
        (if state.separated then [⟨index + 1, "ignoring a second separator line"⟩] else [])
  | argument {line : List Char} {state : State} {label : String} {framework : Framework String}
      (named : Names line (.argument label)) (declaring : state.separated = false)
      (added : state.framework.addArgument label = .ok framework) :
      Advances index line state { state with framework } []
  | attack {line : List Char} {state : State} {attacker attacked : String}
      {framework : Framework String} (named : Names line (.attack attacker attacked))
      (joining : state.separated = true)
      (added : state.framework.addAttack attacker attacked = .ok framework) :
      Advances index line state { state with framework } []

theorem step_eq_ok_iff :
    step index (String.ofList line) state = (.ok later, warnings) ↔
      Advances index line state later warnings := by
  rw [step, String.toList_ofList]
  constructor
  · intro done
    split at done
    · rename_i blank
      cases done
      exact .blank (Text.blank_iff_all.mpr blank)
    · split at done
      · rename_i separator
        cases done
        exact .separator separator
      · obtain ⟨extended, rfl⟩ := Prod.mk.injEq .. ▸ done
        obtain ⟨framework, added, rfl⟩ := map_eq_ok.mp extended
        split at added
        · rename_i separated named
          exact .attack (readElement?_eq_some_iff.mp named) separated (mapError_eq_ok.mp added)
        · cases added
        · rename_i separated named
          exact .argument (readElement?_eq_some_iff.mp named) separated (mapError_eq_ok.mp added)
        · cases added
  · intro advanced
    cases advanced with
    | blank blank => rw [if_pos (Text.blank_iff_all.mp blank)]
    | separator separator =>
      have single : Text.trim line = ['#'] := separator
      rw [if_neg (mt Text.blank_iff_all.mpr separator.not_blank), if_pos single]
    | argument named declaring added =>
      have other : ¬ Text.trim line = ['#'] := named.not_separator
      rw [if_neg (mt Text.blank_iff_all.mpr named.not_blank), if_neg other, declaring,
        readElement?_eq_some_iff.mpr named]
      simp only [refusable, added]
      rfl
    | attack named joining added =>
      have other : ¬ Text.trim line = ['#'] := named.not_separator
      rw [if_neg (mt Text.blank_iff_all.mpr named.not_blank), if_neg other, joining,
        readElement?_eq_some_iff.mpr named]
      simp only [refusable, added]
      rfl

/-- A line that fails raises no warning. -/
theorem warnings_of_failed {report : Report}
    (failed : step index (String.ofList line) state = (.error report, warnings)) :
    warnings = [] := by
  simp only [step] at failed
  split at failed
  · cases failed
  · split at failed
    · cases failed
    · exact (congrArg Prod.snd failed).symm

end Step

section Run

variable {lines : List (List Char)} {line : List Char} {state later : State}
  {warnings more : List Warning}

/-- The warnings about repeated separators; lines are counted from one. -/
def announced (lines : List (List Char)) : List Warning :=
  (repeatedSeparators lines).map fun index => ⟨index + 1, "ignoring a second separator line"⟩

theorem announced_append_singleton :
    announced (lines ++ [line]) = announced lines ++
      if Separated lines ∧ IsSeparator line then
        [⟨lines.length + 1, "ignoring a second separator line"⟩]
      else [] := by
  have none : (lines.findIdxs fun line => IsSeparator line) = [] ↔ ¬ Separated lines := by
    simp [Separated, List.findIdxs_eq_nil_iff]
  rw [announced, announced, repeatedSeparators, repeatedSeparators, List.findIdxs_append,
    List.findIdxs_singleton, Nat.zero_add]
  by_cases separated : Separated lines
  · rw [List.tail_append_of_ne_nil (fun empty => none.mp empty separated)]
    by_cases separator : IsSeparator line <;> simp [separated, separator]
  · rw [none.mpr separated]
    by_cases separator : IsSeparator line <;> simp [separated, separator]

/-- What the lines that passed have to do with the state that they lead to. -/
structure Reflects (lines : List (List Char)) (state : State) (warnings : List Warning) : Prop where
  consistent : state.framework.Consistent
  separated : state.separated = decide (Separated lines)
  describes : Describes lines state.framework.arguments.labels state.framework.attackList
  warned : warnings = announced lines

theorem Reflects.advance (reflects : Reflects lines state warnings)
    (advanced : Advances lines.length line state later more) :
    Reflects (lines ++ [line]) later (warnings ++ more) := by
  obtain ⟨consistent, separated, describes, warned⟩ := reflects
  cases advanced with
  | blank blank =>
    have other : ¬ IsSeparator line := fun separator => separator.not_blank blank
    refine ⟨consistent, ?_, (describes_append_of_idle (.inl blank)).mpr describes, ?_⟩
    · simp [separated, separated_append_singleton, other]
    · simp [warned, announced_append_singleton, other]
  | separator separator =>
    refine ⟨consistent, ?_, (describes_append_of_idle (.inr separator)).mpr describes, ?_⟩
    · simp [separated_append_singleton, separator]
    · simp [warned, announced_append_singleton, separator, separated]
  | argument named declaring added =>
    have open' : ¬ Separated lines := by simpa [declaring] using separated
    obtain ⟨next, new, labels, attacks⟩ := consistent.of_addArgument added
    refine ⟨next, ?_, ?_, ?_⟩
    · simp [declaring, separated_append_singleton, open', named.not_separator]
    · rw [describes_append_of_not_separated open' named.not_blank named.not_separator]
      exact ⟨_, _, labels, named, new, attacks ▸ describes⟩
    · simp [warned, announced_append_singleton, open']
  | attack named joining added =>
    have closed : Separated lines := by simpa [joining] using separated
    obtain ⟨next, new, arguments, attacks⟩ := consistent.of_addAttack added
    refine ⟨next, ?_, ?_, ?_⟩
    · simp [joining, separated_append_singleton, closed]
    · rw [describes_append_of_separated closed named.not_blank named.not_separator]
      have ends := Framework.ends_mem_labels (attacks ▸ List.mem_append_right _ List.mem_cons_self)
      refine ⟨_, _, attacks, named, new, ends, ?_⟩
      rwa [arguments]
    · simp [warned, announced_append_singleton, named.not_separator]

/-- All that led to a state is known from it. -/
theorem reflects_of_passes (passed : Passes step {} lines state warnings) :
    Reflects lines state warnings := by
  induction passed with
  | start => exact ⟨.ofArguments .empty, by simp [Separated], describes_nil, rfl⟩
  | line _ done ih => exact ih.advance (step_eq_ok_iff.mp done)

/-- Lines that describe a framework pass and lead to it. -/
theorem exists_passes {labels : List String} {attacks : List (String × String)}
    (described : Describes lines labels attacks) :
    ∃ state warnings, Passes step {} lines state warnings ∧
      state.framework.arguments.labels = labels ∧ state.framework.attackList = attacks := by
  induction lines using List.reverseRecOn generalizing labels attacks with
  | nil =>
    cases described.arguments
    cases described.joins
    exact ⟨{}, [], .start, rfl, rfl⟩
  | append_singleton lines line ih =>
    by_cases idle : Blank line ∨ IsSeparator line
    · obtain ⟨state, warnings, passed, rest⟩ := ih ((describes_append_of_idle idle).mp described)
      rcases idle with blank | separator
      · exact ⟨state, _, passed.line (step_eq_ok_iff.mpr (.blank blank)), rest⟩
      · exact ⟨_, _, passed.line (step_eq_ok_iff.mpr (.separator separator)), rest⟩
    · obtain ⟨filled, other⟩ := not_or.mp idle
      by_cases separated : Separated lines
      · obtain ⟨before, attack, rfl, named, new, ends, described⟩ :=
          (describes_append_of_separated separated filled other).mp described
        obtain ⟨state, warnings, passed, rfl, rfl⟩ := ih described
        have reflects := reflects_of_passes passed
        obtain ⟨framework, added, _, arguments, attacks⟩ :=
          reflects.consistent.addAttack_of_not_mem ends.1 ends.2 new
        have joining : state.separated = true := by simp [reflects.separated, separated]
        exact ⟨_, _, passed.line (step_eq_ok_iff.mpr (.attack named joining added)),
          congrArg ArgumentSet.labels arguments, attacks⟩
      · obtain ⟨before, label, rfl, named, new, described⟩ :=
          (describes_append_of_not_separated separated filled other).mp described
        obtain ⟨state, warnings, passed, rfl, rfl⟩ := ih described
        have reflects := reflects_of_passes passed
        obtain ⟨framework, added, _, labels, attacks⟩ :=
          reflects.consistent.addArgument_of_not_mem new
        have declaring : state.separated = false := by simp [reflects.separated, separated]
        exact ⟨_, _, passed.line (step_eq_ok_iff.mpr (.argument named declaring added)), labels,
          attacks⟩

end Run

/-- Lines are accepted when they pass. -/
theorem accepted_iff {lines : List (List Char)} :
    Accepted lines ↔ ∃ state warnings, Passes step {} lines state warnings := by
  constructor
  · rintro ⟨framework, done⟩
    rcases readLines_cases step (fun state => .ok state.framework) {} lines with
      ⟨state, warnings, passed, _⟩ | ⟨_, _, _, _, _, _, _, _, _, read⟩
    · exact ⟨state, warnings, passed⟩
    · rw [Tgf.read, read] at done
      cases done
  · rintro ⟨state, warnings, passed⟩
    exact ⟨state.framework, by rw [Tgf.read, passed.readLines_eq]⟩

/-- Either all lines pass, or there is a first line with which the lines are not accepted. -/
theorem read_cases (lines : List (List Char)) :
    (∃ state warnings, Passes step {} lines state warnings ∧
      read (lines.map fun line => .ok (String.ofList line)) =
        ⟨.ok state.framework, announced lines⟩) ∨
    ∃ (index : Nat) (report : Report), index < lines.length ∧
      IsLeast {index | ¬ Accepted (lines.take (index + 1))} index ∧
      read (lines.map fun line => .ok (String.ofList line)) =
        ⟨.error (report.within (.readingLine index)), announced (lines.take index)⟩ := by
  rcases readLines_cases step (fun state => .ok state.framework) {} lines with
    ⟨state, warnings, passed, done⟩ |
    ⟨index, line, state, warnings, report, more, found, passed, failed, done⟩
  · rw [(reflects_of_passes passed).warned] at done
    exact .inl ⟨state, warnings, passed, done⟩
  · rw [warnings_of_failed failed, List.append_nil, (reflects_of_passes passed).warned] at done
    refine .inr ⟨index, report, (List.getElem?_eq_some_iff.mp found).1, ⟨?_, ?_⟩, done⟩
    · intro accepted
      obtain ⟨_, _, first⟩ := accepted_iff.mp accepted
      exact Passes.not_take_succ found passed failed _ _ first
    · -- all the lines before the failing one are accepted
      intro earlier refused
      refine Nat.le_of_not_lt fun before => refused (accepted_iff.mpr ?_)
      have first := passed.take (earlier + 1)
      rwa [List.take_take, Nat.min_eq_left before] at first

/-- A text is read exactly when its lines describe a framework, which is then what is read. When it
is not read, the outermost message gives the first line, counted from zero, that is not accepted
with the lines before it. In both cases every handler is told, once for each separator after the
first one among the lines that were accepted, the number of its line, counted from one. -/
theorem read_exact (text : String) :
    let lines := Text.lines text.toList
    let reading := read (Text.linesOfBytes text.toUTF8)
    let told := fun (handlers : Nat) (accepted : List (List Char)) =>
      (repeatedSeparators accepted).flatMap fun index => (List.range handlers).map fun handler =>
        (handler, (⟨index + 1, "ignoring a second separator line"⟩ : Warning))
    (forall labels attacks, Describes lines labels attacks ↔
      ∃ framework, reading.result = .ok framework ∧ framework.arguments.labels = labels ∧
        framework.attackList = attacks) ∧
    (forall framework, reading.result = .ok framework -> framework.Consistent ∧
      forall handlers, deliveries handlers reading.warnings = told handlers lines) ∧
    forall report, reading.result = .error report -> ∃ index, index < lines.length ∧
      IsLeast {index | ¬ Accepted (lines.take (index + 1))} index ∧
      report.messages.head? = some ("while reading line with index " ++ toString index) ∧
      forall handlers, deliveries handlers reading.warnings = told handlers (lines.take index) := by
  intro lines reading told
  have source : reading = read (lines.map fun line => .ok (String.ofList line)) := by
    simp only [reading, Text.linesOfBytes_toUTF8]
    rfl
  have delivered (handlers : Nat) (accepted : List (List Char)) :
      deliveries handlers (announced accepted) = told handlers accepted := by
    simp [deliveries, announced, told, List.flatMap_map]
  rcases read_cases lines with ⟨state, warnings, passed, done⟩ | ⟨index, report, inside, least, done⟩
  · have reflects := reflects_of_passes passed
    rw [source, done]
    refine ⟨fun labels attacks => ⟨fun described => ?_, ?_⟩, ?_, ?_⟩
    · obtain ⟨other, _, passed', rfl, rfl⟩ := exists_passes described
      rw [(passed'.unique passed).1]
      exact ⟨state.framework, rfl, rfl, rfl⟩
    · rintro ⟨framework, read, rfl, rfl⟩
      cases read
      exact reflects.describes
    · intro framework read
      cases read
      exact ⟨reflects.consistent, fun handlers => delivered handlers lines⟩
    · intro report read
      cases read
  · rw [source, done]
    refine ⟨fun labels attacks => ⟨fun described => ?_, ?_⟩, ?_, ?_⟩
    · obtain ⟨other, _, passed, _⟩ := exists_passes described
      exact absurd (accepted_iff.mpr (passed.take (index + 1))) least.1
    · rintro ⟨framework, read, _⟩
      cases read
    · intro framework read
      cases read
    · intro report read
      cases read
      exact ⟨index, inside, least, rfl, fun handlers => delivered handlers _⟩

/-- An instance with padded lines, other line ends and a repeated separator, for two handlers, and
one that has an argument after its second separator. -/
theorem read_exact_separators :
    (∃ framework, (read (Text.linesOfBytes "a-1\r\n\t\n b \n#\na-1\u00A0 b\n # \n".toUTF8)).result =
        .ok framework ∧
      framework.arguments.labels = ["a-1", "b"] ∧ framework.attackList = [("a-1", "b")] ∧
      deliveries 2 (read (Text.linesOfBytes
        "a-1\r\n\t\n b \n#\na-1\u00A0 b\n # \n".toUTF8)).warnings =
          [(0, ⟨6, "ignoring a second separator line"⟩),
            (1, ⟨6, "ignoring a second separator line"⟩)]) ∧
    (read (Text.linesOfBytes "a\n#\n#\na\n#\n".toUTF8)).result =
      .error ⟨[.readingLine 3], .text (.invalidAttackLine "a")⟩ ∧
    IsLeast {index | ¬ Accepted ([['a'], ['#'], ['#'], ['a'], ['#']].take (index + 1))} 3 := by
  constructor
  · have described : Describes (Text.lines "a-1\r\n\t\n b \n#\na-1\u00A0 b\n # \n".toList)
        ["a-1", "b"] [("a-1", "b")] := by
      have first : IsLabel "a-1" := by decide
      have second : IsLabel "b" := by decide
      refine ⟨?_, ?_, by decide, by decide, by decide⟩
      · exact .cons (.argument first (.refl _))
          (.cons (.argument second ⟨[' '], [' '], by decide, by decide, by decide⟩) .nil)
      · exact .cons (.attack first second (show Blank ['\u00A0', ' '] by decide) (by decide)
          (.refl _)) .nil
    obtain ⟨framework, read, labels, attacks⟩ := ((read_exact _).1 _ _).mp described
    exact ⟨framework, read, labels, attacks, ((read_exact _).2.1 framework read).2 2⟩
  · obtain ⟨index, inside, least, message, _⟩ := (read_exact "a\n#\n#\na\n#\n").2.2
      ⟨[.readingLine 3], .text (.invalidAttackLine "a")⟩ rfl
    have bounded : index < 5 := inside
    obtain rfl | rfl | rfl | rfl | rfl :
        index = 0 ∨ index = 1 ∨ index = 2 ∨ index = 3 ∨ index = 4 := by
      omega
    case inr.inr.inr.inl => exact ⟨rfl, least⟩
    all_goals exact absurd message (by decide)

end Argumentation.Format.Tgf
