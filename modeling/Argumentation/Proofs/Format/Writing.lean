import Argumentation.Format.Answer
import Mathlib.Data.List.TakeDrop

/-!
# Writing answers

An answer is written in pieces, any of which the sink may cut. Writing pieces one after the other is
the same as writing them as one text, so what a sink holds afterwards is the beginning of the line,
and it is asked to flush when it holds the whole line.
-/

namespace Argumentation.Format

namespace Sink

/-- The bytes of a text. -/
abbrev bytesOf (text : String) : List UInt8 :=
  text.toUTF8.data.toList

theorem bytesOf_append (first second : String) :
    bytesOf (first ++ second) = bytesOf first ++ bytesOf second := by
  simp [bytesOf]

theorem bytesOf_inj {first second : String} (same : bytesOf first = bytesOf second) :
    first = second :=
  String.toByteArray_inj.mp (ByteArray.ext (Array.toList_inj.mp same))

variable {sink : Sink} {bytes first second : List UInt8}

/-- The sink after it took some bytes. -/
abbrev took (sink : Sink) (bytes : List UInt8) : Sink :=
  { sink with content := sink.content ++ bytes }

theorem took_took : (sink.took first).took second = sink.took (first ++ second) := by
  simp [took, List.append_assoc]

/-- Whether a sink has room for some bytes. -/
def Fits (sink : Sink) (bytes : List UInt8) : Prop :=
  sink.fitting bytes = bytes

instance : Decidable (sink.Fits bytes) :=
  inferInstanceAs (Decidable (sink.fitting bytes = bytes))

theorem fits_iff_of_unlimited (unlimited : sink.capacity = none) : sink.Fits bytes ↔ True := by
  simp [Fits, fitting, unlimited]

theorem fits_iff_of_limited {capacity : Nat} (limited : sink.capacity = some capacity) :
    sink.Fits bytes ↔ bytes.length ≤ capacity - sink.content.length := by
  simp [Fits, fitting, limited]

theorem fits_append : sink.Fits (first ++ second) ↔
    sink.Fits first ∧ (sink.took first).Fits second := by
  cases limit : sink.capacity with
  | none =>
    have later : (sink.took first).capacity = none := limit
    simp only [fits_iff_of_unlimited limit, fits_iff_of_unlimited later, and_self]
  | some capacity =>
    have later : (sink.took first).capacity = some capacity := limit
    simp only [fits_iff_of_limited limit, fits_iff_of_limited later, List.length_append]
    omega

/-- What fits of a text goes on after a part of it that fits. -/
theorem fitting_append_of_fits (fits : sink.Fits first) :
    sink.fitting (first ++ second) = first ++ (sink.took first).fitting second := by
  cases limit : sink.capacity with
  | none => simp only [fitting, limit]
  | some capacity =>
    simp only [Fits, fitting, limit] at fits ⊢
    rw [List.take_append, fits, List.length_append, Nat.sub_add_eq]

/-- What fits of a text ends within a part of it that does not fit. -/
theorem fitting_append_of_not_fits (long : ¬ sink.Fits first) :
    sink.fitting (first ++ second) = sink.fitting first := by
  cases limit : sink.capacity with
  | none => exact absurd ((fits_iff_of_unlimited limit).mpr trivial) long
  | some capacity =>
    rw [fits_iff_of_limited limit] at long
    simp only [fitting, limit]
    exact List.take_append_of_le_length (by omega)

/-- A text that does not fit is cut. -/
theorem write_eq (sink : Sink) (text : String) : sink.write text =
    (if sink.Fits (bytesOf text) then .ok () else .error .sinkFull,
      sink.took (sink.fitting (bytesOf text))) := by
  have shorter : (sink.fitting (bytesOf text)).length < (bytesOf text).length ↔
      ¬ sink.Fits (bytesOf text) := by
    cases limit : sink.capacity with
    | none => simp [Fits, fitting, limit]
    | some capacity =>
      rw [fits_iff_of_limited limit]
      simp only [fitting, limit, List.length_take]
      omega
  simp only [write, shorter, ite_not]

/-- Writing a text is writing a part of it and then, if that went well, the rest. -/
theorem write_append (sink : Sink) (first second : String) : sink.write (first ++ second) =
    match sink.write first with
    | (.ok _, next) => next.write second
    | (.error fault, next) => (.error fault, next) := by
  simp only [write_eq, bytesOf_append, fits_append]
  by_cases fits : sink.Fits (bytesOf first)
  · have whole : sink.fitting (bytesOf first) = bytesOf first := fits
    simp only [fitting_append_of_fits fits, whole, fits, true_and, if_true, took_took]
  · simp only [fitting_append_of_not_fits fits, fits, false_and, if_false]

/-- Writing pieces is writing them as one text. -/
theorem writeAll_eq_write_join (sink : Sink) (texts : List String) :
    sink.writeAll texts = sink.write (String.join texts) := by
  induction texts generalizing sink with
  | nil =>
    have whole : sink.fitting [] = [] := by
      cases limit : sink.capacity <;> simp [fitting, limit]
    simp [writeAll, write_eq, bytesOf, Fits, whole, took]
  | cons text rest ih =>
    rw [String.join_cons, write_append, writeAll]
    rcases sink.write text with ⟨_ | _, next⟩
    · rfl
    · exact ih next

end Sink

namespace Answer

variable {α : Type}

/-- What a failure to print an answer is to be reported under. -/
def context : Answer α -> String
  | .extension _ => "while writing an extension"
  | .count _ => "while writing an extension count"
  | .status _ => "while writing an acceptance_status"
  | .noExtension => "while writing problem has no extension"

theorem context_eq (answer : Answer α) : answer.context = answer.activity.message := by
  cases answer <;> rfl

/-- The report of a fault in writing an answer. -/
abbrev failed (answer : Answer α) (fault : Text.StreamFault) : Report :=
  (Report.ofStream fault).within answer.activity

theorem messages_failed (answer : Answer α) (fault : Text.StreamFault) :
    (answer.failed fault).messages = [answer.context, fault.message] := by
  simp [Report.messages, Report.within, Report.ofStream, Cause.message, context_eq]

section Lines

variable [Label α]

/-- Texts after the first one are written with a comma in front. -/
theorem join_separated (first : String) (rest : List String) :
    first ++ String.join (rest.flatMap fun other => [",", other]) =
      String.intercalate "," (first :: rest) := by
  induction rest generalizing first with
  | nil => simp
  | cons other rest ih =>
    rw [String.intercalate_cons_cons, ← ih other, List.flatMap_cons, String.join_append]
    simp [String.append_assoc]

/-- An extension is printed as its labels between brackets, separated by commas. -/
theorem line_extension (labels : Extension α) : (extension labels).line =
    "[" ++ String.intercalate "," (labels.map Label.text) ++ "]\n" := by
  have inner : String.join (labels.mapIdx fun position label =>
      if position = 0 then [Label.text label] else [",", Label.text label]).flatten =
      String.intercalate "," (labels.map Label.text) := by
    cases labels with
    | nil => simp
    | cons label rest =>
      have later : rest.mapIdx (fun _ other => [",", Label.text other]) =
          rest.map fun other => [",", Label.text other] :=
        List.ext_getElem (by simp) (by simp)
      rw [List.map_cons, ← join_separated]
      simp [List.mapIdx_cons, later, List.flatMap_def, Function.comp_def]
  rw [← inner]
  simp [line, pieces, extensionPieces, String.append_assoc]

theorem line_count (number : Nat) : (count number : Answer α).line = toString number ++ "\n" := by
  simp [line, pieces]

theorem line_status (accepted : Bool) :
    (status accepted : Answer α).line = if accepted then "YES\n" else "NO\n" := by
  cases accepted <;> rfl

/-- The line that an answer is to be printed as. -/
def printed : Answer α -> String
  | .extension labels => "[" ++ String.intercalate "," (labels.map Label.text) ++ "]\n"
  | .count extensions => toString extensions ++ "\n"
  | .status true => "YES\n"
  | .status false => "NO\n"
  | .noExtension => "NO\n"

theorem line_eq_printed (answer : Answer α) : answer.line = answer.printed := by
  cases answer with
  | extension labels => exact line_extension labels
  | count extensions => exact line_count extensions
  | status accepted =>
    rw [line_status]
    cases accepted <;> rfl
  | noExtension => rfl

/-- The bytes of the line are written up to the capacity. The sink is flushed if it took all. -/
theorem writeTo_eq (sink : Sink) (answer : Answer α) :
    let bytes := Sink.bytesOf answer.printed
    answer.writeTo sink =
      if sink.Fits bytes
      then ((sink.took bytes).flush.1.mapError answer.failed, (sink.took bytes).flush.2)
      else (.error (answer.failed .sinkFull), sink.took (sink.fitting bytes)) := by
  intro bytes
  rw [writeTo, Sink.writeAll_eq_write_join, Sink.write_eq, ← line, line_eq_printed]
  by_cases fits : sink.Fits bytes
  · have whole : sink.fitting bytes = bytes := fits
    simp only [bytes, if_pos fits] at whole ⊢
    rw [whole]
  · simp only [bytes, if_neg fits]

/-- An unlimited sink takes the whole line. -/
theorem content_writeTo {sink : Sink} (unlimited : sink.capacity = none) (answer : Answer α) :
    (answer.writeTo sink).2.content = sink.content ++ Sink.bytesOf answer.printed := by
  rw [writeTo_eq, if_pos ((Sink.fits_iff_of_unlimited unlimited).mpr trivial)]
  rfl

/-- A sink that takes a number of bytes holds that much of the line of an answer, and all of it if
it is not longer. Only then is the sink flushed, and writing goes well if that does. A failure is
reported under what was being written. -/
theorem writeTo_limited (answer : Answer α) (capacity : Nat) (flushFails : Bool) :
    let bytes := Sink.bytesOf answer.printed
    let (result, sink) := answer.writeTo { capacity := some capacity, flushFails }
    sink.content = bytes.take (min capacity bytes.length) ∧
      (result = .ok () ↔ bytes.length ≤ capacity ∧ flushFails = false) ∧
      sink.flushed = (if bytes.length ≤ capacity then [bytes.length] else []) ∧
      forall report, result = .error report -> report.messages =
        [answer.context, if bytes.length ≤ capacity then "flush failed" else "sink is full"] := by
  intro bytes
  have fits : Sink.Fits { capacity := some capacity, flushFails } bytes ↔
      bytes.length ≤ capacity := Sink.fits_iff_of_limited rfl
  by_cases whole : bytes.length ≤ capacity
  · rw [writeTo_eq, if_pos (fits.mpr whole)]
    refine ⟨?_, ?_, ?_, ?_⟩
    · change [] ++ bytes = _
      rw [Nat.min_eq_right whole, List.take_length, List.nil_append]
    · cases flushFails <;> simp [Sink.flush, whole, Except.mapError]
    · exact (if_pos whole).symm
    · cases flushFails
      · simp [Sink.flush, Except.mapError]
      · rintro _ ⟨⟩
        rw [messages_failed, if_pos whole, Text.StreamFault.message]
  · rw [writeTo_eq, if_neg (fits.not.mpr whole)]
    refine ⟨?_, ?_, ?_, ?_⟩
    · simp [Sink.fitting, bytes]
    · simp [whole]
    · simp [whole]
    · rintro _ ⟨⟩
      rw [messages_failed, if_neg whole, Text.StreamFault.message]

-- The sink is full in the middle of a letter.
theorem writeTo_limited_letter :
    let (result, sink) := (extension ["a", "é"]).writeTo { capacity := some 4 }
    sink.content = [91, 97, 44, 195] ∧ sink.flushed = [] ∧
      result.mapError Report.messages = .error ["while writing an extension", "sink is full"] := by
  obtain ⟨content, _, flushed, failure⟩ := writeTo_limited (extension ["a", "é"]) 4 false
  refine ⟨content.trans (by decide +kernel), flushed.trans (by decide +kernel), ?_⟩
  exact congrArg Except.error (failure _ rfl)

end Lines

end Answer

end Argumentation.Format
