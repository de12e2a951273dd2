import Argumentation.CommandLine.Run

/-!
# What a run prints

The log aside, the user sees the texts that a run prints. They are followed through the parts of a
run: what is printed before a stop stays, and nothing is printed after it.
-/

namespace Argumentation.CommandLine

/-- The text that an output adds to the answers. -/
def Output.printed? : Output -> Option String
  | .log _ => none
  | .print text => some text

namespace Run

variable {β γ : Type}

/-- The texts that a run prints, in order. -/
def printed (run : Run β) : List String :=
  run.outputs.filterMap Output.printed?

/-- A run prints these texts and ends in this way. -/
structure Prints (run : Run β) (texts : List String) (result : Except Stop β) : Prop where
  printed : run.printed = texts
  result : run.result = result

/-- What follows a result prints after it. -/
theorem Prints.andThen {run : Run β} {next : β -> Run γ} {value : β} {texts more : List String}
    {result : Except Stop γ} (first : run.Prints texts (.ok value))
    (second : (next value).Prints more result) : (run >>= next).Prints (texts ++ more) result := by
  obtain ⟨outputs, ended⟩ := run
  obtain ⟨rfl, rfl⟩ := first
  obtain ⟨rfl, rfl⟩ := second
  exact ⟨List.filterMap_append, rfl⟩

/-- Something that prints nothing may come first. -/
theorem Prints.after {run : Run β} {next : β -> Run γ} {value : β} {texts : List String}
    {result : Except Stop γ} (first : run.Prints [] (.ok value))
    (second : (next value).Prints texts result) : (run >>= next).Prints texts result :=
  first.andThen second

/-- Nothing follows a stop. -/
theorem Prints.stop {run : Run β} {texts : List String} {stop : Stop}
    (first : run.Prints texts (.error stop)) (next : β -> Run γ) :
    (run >>= next).Prints texts (.error stop) := by
  obtain ⟨outputs, ended⟩ := run
  obtain ⟨rfl, rfl⟩ := first
  exact ⟨rfl, rfl⟩

theorem prints_pure (value : β) : (pure value : Run β).Prints [] (.ok value) :=
  ⟨rfl, rfl⟩

theorem prints_fail (report : Report) : (fail report : Run β).Prints [] (.error (.failed report)) :=
  ⟨rfl, rfl⟩

theorem prints_print (text : String) : (print text).Prints [text] (.ok ()) :=
  ⟨rfl, rfl⟩

/-- The lines of a log are not printed. -/
theorem filterMap_log (notes : List Note) :
    (notes.map Output.log).filterMap Output.printed? = [] := by
  simp [List.filterMap_map, Output.printed?, Function.comp_def]

theorem prints_emit_log (notes : List Note) : (emit (notes.map .log)).Prints [] (.ok ()) :=
  ⟨filterMap_log notes, rfl⟩

theorem prints_log (level : Level) (text : String) : (log level text).Prints [] (.ok ()) :=
  ⟨rfl, rfl⟩

theorem prints_emit_print (texts : List String) :
    (emit (texts.map .print)).Prints texts (.ok ()) := by
  refine ⟨?_, rfl⟩
  simp [printed, emit, List.filterMap_map, Output.printed?, Function.comp_def]

/-- Naming an activity does not change what is printed. -/
theorem Prints.within {run : Run β} {texts : List String} {value : β}
    (prints : run.Prints texts (.ok value)) (activity : Activity) :
    (run.within activity).Prints texts (.ok value) := by
  obtain ⟨outputs, ended⟩ := run
  obtain ⟨rfl, rfl⟩ := prints
  exact ⟨rfl, rfl⟩

theorem Prints.within_failed {run : Run β} {texts : List String} {report : Report}
    (prints : run.Prints texts (.error (.failed report))) (activity : Activity) :
    (run.within activity).Prints texts (.error (.failed (report.within activity))) := by
  obtain ⟨outputs, ended⟩ := run
  obtain ⟨rfl, rfl⟩ := prints
  exact ⟨rfl, rfl⟩

end Run

end Argumentation.CommandLine
