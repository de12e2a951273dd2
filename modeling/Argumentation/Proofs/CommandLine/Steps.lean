import Argumentation.CommandLine.Solve
import Argumentation.Proofs.CommandLine.Run
import Argumentation.Proofs.CommandLine.Updates
import Argumentation.Proofs.Format.Reading

/-!
# Solving steps

What the parts of the solve command print: the answer to a query, and the answers given while update
lines are carried out. Each part leaves a coherent solver and does to it what is told about its
registry.
-/

namespace Argumentation.CommandLine

open Run

/-- A task that can be relied on: it asks for more than any one extension, without a time limit, and
its engine is sound and complete. -/
structure Task.IsReliable (task : Task) : Prop where
  asked : task.query ≠ .computeOne
  unlimited : task.setting.timeout = none
  sound : task.setting.engine.Sound
  complete : task.setting.engine.Complete

/-- The argument that a query needs is a known one. -/
def Poses (registry : Registry String) (query : Query) (argument : Option String) : Prop :=
  query = .accept -> ∃ label, argument = some label ∧ registry.Knows (.argument label)

theorem Poses.applyPatches {registry later : Registry String} {query : Query}
    {argument : Option String} (poses : Poses registry query argument)
    {patches : List (Patch String)} (changed : registry.applyPatches patches = .ok later) :
    Poses later query argument := by
  intro accepts
  obtain ⟨label, given, known⟩ := poses accepts
  exact ⟨label, given, Registry.knows_applyPatches known changed⟩

theorem Poses.afterLine {format : InstanceFormat} {registry later : Registry String} {query : Query}
    {argument : Option String} (poses : Poses registry query argument) {line : Text.Line}
    (carried : afterLine? format registry line = some later) : Poses later query argument := by
  unfold afterLine? at carried
  split at carried
  · cases carried
  · split at carried
    · cases carried
    · rename_i patches _
      cases changed : registry.applyPatches patches with
      | error error =>
        rw [changed] at carried
        cases carried
      | ok other =>
        rw [changed] at carried
        cases carried
        exact poses.applyPatches changed

/-- Carrying out lines succeeds exactly when all of them can be carried out. -/
def EndsAs (reached : Option (Registry String)) (result : Except Stop Unit) : Prop :=
  match reached with
  | some _ => result = .ok ()
  | none => ∃ report, result = .error (.failed report)

theorem prints_ask {β : Type} {value : β} {asked : Except (Failure String) β × DynamicSolver String}
    (done : asked.1 = .ok value) (solver : DynamicSolver String) (activity : Activity) :
    (ask solver activity asked).Prints [] (.ok (value, asked.2)) := by
  refine ⟨filterMap_log _, ?_⟩
  simp [ask, done, Except.mapError, Except.map]

section Answers

variable {solver : DynamicSolver String} {task : Task}

/-- The session of a solver represents a framework with the extensions of the registry. -/
theorem exists_represents (coherent : solver.Coherent) :
    ∃ framework, solver.session.Represents framework ∧
      forall extension, framework.IsExtension extension ↔
        solver.registry.IsExtension extension := by
  obtain ⟨framework, _, _, labels, attacks⟩ := coherent.activeFramework
  refine ⟨framework, coherent.represents labels attacks, fun extension => ?_⟩
  rw [Registry.IsExtension, ← labels, ← attacks]
  exact ⟨fun listed => ⟨listed.sublist, listed.admissible⟩, fun listed => ⟨listed.1, listed.2⟩⟩

theorem exists_enumerate (coherent : solver.Coherent) (reliable : task.IsReliable) :
    ∃ extensions, (solver.enumerate task.setting).1 = .ok extensions ∧ extensions.Nodup ∧
      forall extension, extension ∈ extensions ↔ solver.registry.IsExtension extension := by
  obtain ⟨framework, represents, same⟩ := exists_represents coherent
  obtain ⟨extensions, solved, distinct, exact⟩ := DynamicSolver.enumerate_exact represents
    reliable.unlimited reliable.sound reliable.complete
  exact ⟨extensions, solved, distinct, fun extension => (exact extension).trans (same extension)⟩

theorem exists_isAccepted (coherent : solver.Coherent) (reliable : task.IsReliable) {label : String}
    (known : solver.registry.Knows (.argument label)) :
    ∃ accepted, (solver.isAccepted task.setting label).1 = .ok accepted ∧
      (accepted = true ↔
        ∃ extension, solver.registry.IsExtension extension ∧ label ∈ extension) := by
  obtain ⟨framework, represents, same⟩ := exists_represents coherent
  obtain ⟨accepted, answered, means⟩ :=
    coherent.isAccepted_exact represents reliable.sound reliable.complete known
  refine ⟨accepted, answered, means.trans ?_⟩
  simp only [same]

/-- A query is answered about the active elements, which stay as they are. -/
theorem prints_answer (coherent : solver.Coherent) (reliable : task.IsReliable)
    (poses : Poses solver.registry task.query task.argument) :
    ∃ texts next, (answer task solver).Prints texts (.ok next) ∧ next.Coherent ∧
      next.registry = solver.registry ∧
      Answered solver.registry task.query task.argument texts := by
  obtain ⟨query, argument, format, setting⟩ := task
  cases query with
  | count =>
    obtain ⟨extensions, solved, distinct, exact⟩ := exists_enumerate coherent reliable
    obtain ⟨later, registry⟩ := coherent.enumerate setting
    refine ⟨_, _, (prints_ask (DynamicSolver.count_of_enumerate solved) _ _).after
      ((prints_print _).andThen (prints_pure _)), later, registry, ?_⟩
    rw [Format.Answer.line_count]
    exact .count exact distinct
  | accept =>
    obtain ⟨label, rfl, known⟩ := poses rfl
    obtain ⟨accepted, replied, means⟩ := exists_isAccepted coherent reliable known
    obtain ⟨later, registry⟩ := coherent.isAccepted setting label
    have succeeded : (queryFailure (solver.isAccepted setting label)).1 = .ok accepted := by
      rw [queryFailure, replied]
      rfl
    refine ⟨_, _, (prints_ask succeeded _ _).after ((prints_print _).andThen (prints_pure _)),
      later, registry, ?_⟩
    rw [Format.Answer.line_status]
    cases accepted with
    | true => exact .accepted (means.mp rfl)
    | false => exact .rejected (mt means.mpr Bool.false_ne_true)
  | enumerate =>
    obtain ⟨extensions, solved, distinct, exact⟩ := exists_enumerate coherent reliable
    obtain ⟨later, registry⟩ := coherent.enumerate setting
    -- Sorting erases the order in which the engine found the extensions.
    have lines := prints_emit_print
      ((Extension.sorted extensions).map fun labels => (Format.Answer.extension labels).line)
    rw [List.map_map] at lines
    refine ⟨_, _, (prints_ask solved _ _).after ((prints_log _ _).after
      (lines.andThen (prints_pure _))), later, registry, ?_⟩
    rw [List.append_nil]
    have plain (labels : Extension String) : labels.map Label.text = labels := List.map_id labels
    simp only [Format.Answer.line_extension, plain]
    refine .enumerate (fun extension => List.mem_mergeSort.trans (exact extension))
      (Extension.pairwise_sorted distinct fun extension member label inside => ?_)
    have active := ((exact extension).mp member).1.subset inside
    exact coherent.valid label (List.mem_filter.mp active).1
  | computeOne => exact absurd rfl reliable.asked

/-- Patches do to the solver what they do to its registry, and print nothing. -/
theorem prints_applyPatches (coherent : solver.Coherent) (patches : List (Patch String)) :
    match solver.registry.applyPatches patches with
    | .ok later => ∃ next, (applyPatches solver patches).Prints [] (.ok next) ∧ next.Coherent ∧
        next.registry = later
    | .error error =>
      (applyPatches solver patches).Prints [] (.error (.failed (.ofError error))) := by
  induction patches generalizing solver with
  | nil => exact ⟨solver, prints_pure solver, coherent, rfl⟩
  | cons patch rest ih =>
    have follows := coherent.applyPatch patch
    rw [Registry.applyPatches_cons, applyPatches]
    cases first : solver.registry.applyPatch patch with
    | error error =>
      rw [first] at follows
      have refused : solver.applyPatch patch = (.error error, solver) := follows
      rw [refused]
      exact (prints_log _ _).after ((prints_emit_log _).after ((prints_fail _).stop _))
    | ok later =>
      rw [first] at follows
      obtain ⟨done, again, registry⟩ := follows
      have applied : solver.applyPatch patch = (.ok (), (solver.applyPatch patch).2) :=
        Prod.ext done rfl
      rw [applied]
      have others := ih again
      rw [registry] at others
      dsimp only
      cases rest' : later.applyPatches rest with
      | error error =>
        rw [rest'] at others
        exact (prints_log _ _).after ((prints_emit_log _).after ((prints_pure ()).after others))
      | ok final =>
        rw [rest'] at others
        obtain ⟨next, prints, coherent, same⟩ := others
        exact ⟨next, (prints_log _ _).after ((prints_emit_log _).after
          ((prints_pure ()).after prints)), coherent, same⟩

/-- An update line that can be carried out is answered; any other prints nothing and fails. -/
theorem prints_processLine (coherent : solver.Coherent) (reliable : task.IsReliable)
    (poses : Poses solver.registry task.query task.argument) (line : String) :
    match afterLine? task.format solver.registry (.ok line) with
    | some later => ∃ texts next, (processLine task solver line).Prints texts (.ok next) ∧
        next.Coherent ∧ next.registry = later ∧ Answered later task.query task.argument texts
    | none => ∃ report, (processLine task solver line).Prints [] (.error (.failed report)) := by
  rw [processLine, afterLine?]
  cases task.format.readUpdate line with
  | error report => exact ⟨report, (prints_fail report).stop _⟩
  | ok patches =>
    have applied := prints_applyPatches coherent patches
    dsimp only
    cases changed : solver.registry.applyPatches patches with
    | error error =>
      rw [changed] at applied
      exact ⟨_, (prints_pure patches).after (applied.stop _)⟩
    | ok later =>
      rw [changed] at applied
      obtain ⟨next, prints, again, rfl⟩ := applied
      obtain ⟨texts, final, answers, ready, same, answered⟩ :=
        prints_answer again reliable (poses.applyPatches changed)
      exact ⟨texts, final, (prints_pure patches).after (prints.after answers), ready, same,
        answered⟩

/-- Update lines are answered one after the other, up to the first that cannot be carried out. -/
theorem prints_processLines (coherent : solver.Coherent) (reliable : task.IsReliable)
    (poses : Poses solver.registry task.query task.argument) (lines : List Text.Line)
    (number : Nat) {texts : List String}
    (answered : Answered solver.registry task.query task.argument texts) :
    let updates := lines.filter fun line => !isBlankLine line
    ∃ answers result, (processLines task number solver lines).Prints answers.flatten result ∧
      AnswersUpdates task.format task.query task.argument solver.registry updates
        (texts :: answers) ∧
      EndsAs (afterLines? task.format solver.registry updates) result := by
  -- The answer given before the lines comes first, so it changes from line to line.
  induction lines generalizing solver number texts with
  | nil => exact ⟨[], _, prints_pure (), .nil answered, rfl⟩
  | cons line rest ih =>
    intro updates
    cases line with
    | error fault =>
      refine ⟨[], _, (prints_fail _).within_failed _, .fault answered rfl _, ?_⟩
      exact ⟨_, rfl⟩
    | ok line =>
      rw [processLines]
      by_cases blank : line.toList.all Text.isBlank = true
      · have skipped : updates = rest.filter fun line => !isBlankLine line :=
          List.filter_cons_of_neg (by simpa [isBlankLine] using blank)
        rw [if_pos blank, skipped]
        exact ih coherent poses (number + 1) answered
      · have kept : updates = .ok line :: rest.filter fun line => !isBlankLine line :=
          List.filter_cons_of_pos (by simpa [isBlankLine] using blank)
        have one := prints_processLine coherent reliable poses line
        rw [if_neg blank, kept]
        cases carried : afterLine? task.format solver.registry (.ok line) with
        | none =>
          rw [carried] at one
          obtain ⟨report, prints⟩ := one
          refine ⟨[], _, (prints.within_failed _).stop _, .fault answered carried _, ?_⟩
          simp [EndsAs, afterLines?, carried]
        | some later =>
          rw [carried] at one
          obtain ⟨more, next, prints, again, rfl, answered'⟩ := one
          obtain ⟨answers, result, others, listed, ends⟩ :=
            ih again (poses.afterLine carried) (number + 1) answered'
          refine ⟨more :: answers, result, (prints.within _).andThen others,
            .cons answered carried listed, ?_⟩
          simpa [afterLines?, carried] using ends

end Answers

end Argumentation.CommandLine
