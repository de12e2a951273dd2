import Argumentation.Format.Basic
import Argumentation.Proofs.Text.Lines
import Mathlib.Data.List.Forall2
import Mathlib.Data.List.Induction
import Mathlib.Data.List.Nodup

/-!
# The progress of a reading

A reading handles the lines of its source one after the other and ends at the first failure. The
lines before it pass: they lead from the initial state to a later one and leave warnings. What a
reading gives is thus known from the lines that pass and from the step at the first line that does
not.
-/

namespace Argumentation.Format

theorem nodup_append_singleton {β : Type} {items : List β} {item : β} :
    (items ++ [item]).Nodup ↔ item ∉ items ∧ items.Nodup :=
  List.nodup_append_comm.trans List.nodup_cons

/-- What is related to lines one by one is so to the lines without the last one. -/
theorem forall₂_append_singleton_left {β γ : Type} {related : β -> γ -> Prop} {first : List β}
    {last : β} {second : List γ} :
    List.Forall₂ related (first ++ [last]) second ↔ ∃ before other, second = before ++ [other] ∧
      List.Forall₂ related first before ∧ related last other := by
  rw [← List.forall₂_reverse_iff, List.reverse_append, List.reverse_singleton,
    List.singleton_append, List.forall₂_cons_left_iff]
  constructor
  · rintro ⟨other, rest, one, others, reversed⟩
    refine ⟨rest.reverse, other, ?_, ?_, one⟩
    · rw [← List.reverse_cons, ← reversed, List.reverse_reverse]
    · rwa [← List.forall₂_reverse_iff, List.reverse_reverse]
  · rintro ⟨before, other, rfl, others, one⟩
    exact ⟨other, before.reverse, one, List.forall₂_reverse_iff.mpr others, by simp⟩

/-- Each item of two lists that are related one by one has its counterpart. -/
theorem exists_right_of_mem {β γ : Type} {related : β -> γ -> Prop} {first : List β}
    {second : List γ} (all : List.Forall₂ related first second) {item : β} (member : item ∈ first) :
    ∃ other, other ∈ second ∧ related item other := by
  induction all with
  | nil => cases member
  | cons one _ ih =>
    rcases List.mem_cons.mp member with rfl | inside
    · exact ⟨_, List.mem_cons_self, one⟩
    · obtain ⟨other, later, holds⟩ := ih inside
      exact ⟨other, List.mem_cons_of_mem _ later, holds⟩

theorem exists_left_of_mem {β γ : Type} {related : β -> γ -> Prop} {first : List β}
    {second : List γ} (all : List.Forall₂ related first second) {other : γ}
    (member : other ∈ second) : ∃ item, item ∈ first ∧ related item other :=
  exists_right_of_mem (List.Forall₂.flip (R := flip related) all) member

/-- An item of a list stands after as many others as its index tells. -/
theorem exists_append_of_getElem? {β : Type} {items : List β} {index : Nat} {item : β}
    (found : items[index]? = some item) :
    ∃ before after, items = before ++ item :: after ∧ before.length = index := by
  obtain ⟨inside, rfl⟩ := List.getElem?_eq_some_iff.mp found
  refine ⟨items.take index, items.drop (index + 1), ?_, ?_⟩
  · rw [List.getElem_cons_drop, List.take_append_drop]
  · rw [List.length_take, Nat.min_eq_left (Nat.le_of_lt inside)]

variable {State : Type} {step : Nat -> String -> State -> Except Report State × List Warning}
  {finish : State -> Except Report (Framework String)} {initial : State}

/-- Lines that are handled without a failure: the state that they lead to and their warnings. -/
inductive Passes (step : Nat -> String -> State -> Except Report State × List Warning)
    (initial : State) : List (List Char) -> State -> List Warning -> Prop
  | start : Passes step initial [] initial []
  | line {lines : List (List Char)} {line : List Char} {state later : State}
      {warnings more : List Warning} (before : Passes step initial lines state warnings)
      (done : step lines.length (String.ofList line) state = (.ok later, more)) :
      Passes step initial (lines ++ [line]) later (warnings ++ more)

namespace Passes

theorem nil_iff {state : State} {warnings : List Warning} :
    Passes step initial [] state warnings ↔ state = initial ∧ warnings = [] := by
  constructor
  · intro passed
    generalize none : ([] : List (List Char)) = lines at passed
    cases passed with
    | start => exact ⟨rfl, rfl⟩
    | line => simp at none
  · rintro ⟨rfl, rfl⟩
    exact .start

/-- The last line of those that pass is handled in the state that the others lead to. -/
theorem append_singleton_iff {lines : List (List Char)} {line : List Char} {later : State}
    {all : List Warning} :
    Passes step initial (lines ++ [line]) later all ↔ ∃ state warnings more,
      Passes step initial lines state warnings ∧
      step lines.length (String.ofList line) state = (.ok later, more) ∧
      all = warnings ++ more := by
  constructor
  · intro passed
    generalize whole : lines ++ [line] = read at passed
    cases passed with
    | start => simp at whole
    | line before done =>
      obtain ⟨rfl, same⟩ := List.append_inj' whole rfl
      cases same
      exact ⟨_, _, _, before, done, rfl⟩
  · rintro ⟨state, warnings, more, before, done, rfl⟩
    exact .line before done

/-- The lines decide the state and the warnings. -/
theorem unique {lines : List (List Char)} {state other : State} {warnings more : List Warning}
    (first : Passes step initial lines state warnings)
    (second : Passes step initial lines other more) : state = other ∧ warnings = more := by
  induction first generalizing other more with
  | start =>
    obtain ⟨rfl, rfl⟩ := nil_iff.mp second
    exact ⟨rfl, rfl⟩
  | line _ done ih =>
    obtain ⟨state, warnings, last, before, done', rfl⟩ := append_singleton_iff.mp second
    obtain ⟨rfl, rfl⟩ := ih before
    cases done.symm.trans done'
    exact ⟨rfl, rfl⟩

/-- Lines that are handled as those that pass do so too. -/
theorem congr {lines others : List (List Char)} {state : State} {warnings : List Warning}
    (alike : List.Forall₂ (fun line other => forall index state,
      step index (String.ofList line) state = step index (String.ofList other) state) lines others)
    (passed : Passes step initial lines state warnings) :
    Passes step initial others state warnings := by
  induction passed generalizing others with
  | start =>
    rw [List.forall₂_nil_left_iff] at alike
    subst alike
    exact .start
  | line _ done ih =>
    obtain ⟨before, other, rfl, alike, same⟩ := forall₂_append_singleton_left.mp alike
    refine .line (ih alike) ?_
    rw [← alike.length_eq, ← same]
    exact done

/-- Lines at the start of lines that pass do so too. -/
theorem of_append {first second : List (List Char)} {later : State} {all : List Warning}
    (passed : Passes step initial (first ++ second) later all) :
    ∃ state warnings, Passes step initial first state warnings := by
  induction second using List.reverseRecOn generalizing later all with
  | nil => exact ⟨later, all, by rwa [List.append_nil] at passed⟩
  | append_singleton second line ih =>
    rw [← List.append_assoc] at passed
    obtain ⟨_, _, _, before, _⟩ := append_singleton_iff.mp passed
    exact ih before

/-- The first lines among those that pass do so too. -/
theorem take {lines : List (List Char)} {later : State} {all : List Warning}
    (passed : Passes step initial lines later all) (size : Nat) :
    ∃ state warnings, Passes step initial (lines.take size) state warnings := by
  rw [← List.take_append_drop size lines] at passed
  exact passed.of_append

/-- A line that fails in the state that the lines before it lead to does not pass with them. -/
theorem not_take_succ {lines : List (List Char)} {index : Nat} {line : List Char} {state : State}
    {warnings more : List Warning} {report : Report} (found : lines[index]? = some line)
    (passed : Passes step initial (lines.take index) state warnings)
    (failed : step index (String.ofList line) state = (.error report, more)) (later : State)
    (all : List Warning) : ¬ Passes step initial (lines.take (index + 1)) later all := by
  rw [List.take_add_one, found, Option.toList_some, append_singleton_iff]
  rintro ⟨_, _, _, before, done, _⟩
  obtain ⟨rfl, rfl⟩ := passed.unique before
  have inside : index < lines.length := (List.getElem?_eq_some_iff.mp found).1
  rw [List.length_take, Nat.min_eq_left (Nat.le_of_lt inside), failed] at done
  cases done

/-- Lines among which one fails do not pass. -/
theorem not_of_failed {lines : List (List Char)} {index : Nat} {line : List Char} {state : State}
    {warnings more : List Warning} {report : Report} (found : lines[index]? = some line)
    (passed : Passes step initial (lines.take index) state warnings)
    (failed : step index (String.ofList line) state = (.error report, more)) (later : State)
    (all : List Warning) : ¬ Passes step initial lines later all := by
  intro whole
  obtain ⟨_, _, first⟩ := whole.take (index + 1)
  exact not_take_succ found passed failed _ _ first

/-- The rest of a reading whose first lines pass: either all lines pass, or there is a first one
that fails. -/
theorem rest_cases {before : List (List Char)} {state : State} {warnings : List Warning}
    (passed : Passes step initial before state warnings) (rest : List (List Char)) :
    (∃ later more, Passes step initial (before ++ rest) later (warnings ++ more) ∧
      readLines step finish before.length state
        (rest.map fun line => .ok (String.ofList line)) = ⟨finish later, more⟩) ∨
    ∃ index line later more report last, (before ++ rest)[index]? = some line ∧
      Passes step initial ((before ++ rest).take index) later (warnings ++ more) ∧
      step index (String.ofList line) later = (.error report, last) ∧
      readLines step finish before.length state
        (rest.map fun line => .ok (String.ofList line)) =
          ⟨.error (report.within (.readingLine index)), more ++ last⟩ := by
  induction rest generalizing before state warnings with
  | nil => exact .inl ⟨state, [], by simpa using passed, rfl⟩
  | cons line rest ih =>
    rw [List.map_cons, readLines]
    cases outcome : step before.length (String.ofList line) state with
    | mk result more =>
      cases result with
      | error report =>
        refine .inr ⟨before.length, line, state, [], report, more, by simp, ?_, outcome, rfl⟩
        simpa using passed
      | ok later =>
        have next := ih (passed.line outcome)
        rw [List.append_assoc, List.singleton_append, List.length_append, List.length_singleton]
          at next
        rcases next with ⟨last, others, passed, read⟩ |
          ⟨index, failing, last, others, report, final, found, passed, failed, read⟩
        · exact .inl ⟨last, more ++ others, by rwa [← List.append_assoc], by simp only [read]⟩
        · refine .inr ⟨index, failing, last, more ++ others, report, final, found, ?_, failed, ?_⟩
          · rwa [← List.append_assoc]
          · simp only [read, List.append_assoc]

end Passes

/-- A reading either passes all lines and then finishes, or fails at the first line that does not
pass. -/
theorem readLines_cases
    (step : Nat -> String -> State -> Except Report State × List Warning)
    (finish : State -> Except Report (Framework String)) (initial : State)
    (lines : List (List Char)) :
    (∃ state warnings, Passes step initial lines state warnings ∧
      readLines step finish 0 initial (lines.map fun line => .ok (String.ofList line)) =
        ⟨finish state, warnings⟩) ∨
    ∃ index line state warnings report more, lines[index]? = some line ∧
      Passes step initial (lines.take index) state warnings ∧
      step index (String.ofList line) state = (.error report, more) ∧
      readLines step finish 0 initial (lines.map fun line => .ok (String.ofList line)) =
        ⟨.error (report.within (.readingLine index)), warnings ++ more⟩ :=
  Passes.start.rest_cases lines

/-- When all lines pass, the reading finishes in the state that they lead to. -/
theorem Passes.readLines_eq {lines : List (List Char)} {state : State} {warnings : List Warning}
    (passed : Passes step initial lines state warnings) :
    readLines step finish 0 initial (lines.map fun line => .ok (String.ofList line)) =
      ⟨finish state, warnings⟩ := by
  rcases readLines_cases step finish initial lines with
    ⟨other, more, passed', read⟩ |
    ⟨index, line, other, more, report, last, found, passed', failed, _⟩
  · obtain ⟨rfl, rfl⟩ := passed.unique passed'
    exact read
  · exact absurd passed (not_of_failed found passed' failed _ _)

end Argumentation.Format
