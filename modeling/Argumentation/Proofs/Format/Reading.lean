import Argumentation.Proofs.Format.Apx.Declarations
import Argumentation.Proofs.Solver.Loading

/-!
# What is read can be loaded

The readers build their frameworks with the operations of frameworks and from names that are valid
labels. So a framework that could be read can be loaded into a solver, and what an update names can
be enabled in every solver.
-/

namespace Argumentation

namespace Format

/-- What holds of the state of a reading at first and is kept by every line holds at the end. -/
theorem readLines_invariant {State : Type}
    {step : Nat -> String -> State -> Except Report State × List Warning}
    {finish : State -> Except Report (Framework String)} {invariant : State -> Prop}
    {property : Framework String -> Prop}
    (kept : forall index line state later, invariant state ->
      (step index line state).1 = .ok later -> invariant later)
    (finished : forall state framework, invariant state -> finish state = .ok framework ->
      property framework)
    {lines : List Text.Line} {index : Nat} {state : State} {framework : Framework String}
    (holds : invariant state)
    (read : (readLines step finish index state lines).result = .ok framework) :
    property framework := by
  induction lines generalizing index state with
  | nil => exact finished state framework holds read
  | cons line rest ih =>
    cases line with
    | error fault => cases read
    | ok line =>
      rw [readLines] at read
      cases outcome : step index line state with
      | mk result warnings =>
        rw [outcome] at read
        cases result with
        | error report => cases read
        | ok later => exact ih (kept index line state later holds (by rw [outcome])) read

namespace Tgf

theorem step_isLoadable {index : Nat} {line : String} {state later : State}
    (loadable : state.framework.IsLoadable) (done : (step index line state).1 = .ok later) :
    later.framework.IsLoadable := by
  simp only [step] at done
  split at done
  · cases done
    exact loadable
  · split at done
    · cases done
      exact loadable
    · obtain ⟨framework, extended, rfl⟩ := map_eq_ok.mp done
      change framework.IsLoadable
      split at extended
      · exact loadable.addAttack (mapError_eq_ok.mp extended)
      · cases extended
      · rename_i label _ named
        have valid : Label.isValid label = true := isValid_of_readElement named
        exact loadable.addArgument valid (mapError_eq_ok.mp extended)
      · cases extended

theorem isLoadable_of_read {lines : List Text.Line} {framework : Framework String}
    (done : (read lines).result = .ok framework) : framework.IsLoadable := by
  refine readLines_invariant (fun _ _ _ _ => step_isLoadable)
    (fun state framework loadable same => ?_) ⟨.empty, by simp⟩ done
  cases same
  exact loadable

end Tgf

namespace Apx

/-- The names declared so far are valid, and a framework under construction can be loaded. -/
def State.IsLoadable : State -> Prop
  | .declaring names => forall name, name ∈ names -> Label.isValid name = true
  | .attacking framework => framework.IsLoadable

theorem isLoadable_of_declare {names : List String} {framework : Framework String}
    (valid : forall name, name ∈ names -> Label.isValid name = true)
    (done : declare names = .ok framework) : framework.IsLoadable := by
  obtain ⟨set, listed, rfl⟩ := map_eq_ok.mp (mapError_eq_ok.mp done)
  obtain ⟨built, labels⟩ := ArgumentSet.isBuilt_ofLabels listed
  exact ⟨.ofArguments built, fun name member => valid name (labels ▸ member)⟩

theorem isValid_of_readDeclaration {line : List Char} {written : WrittenName}
    (read : readDeclaration line = .ok (.argument written)) :
    Label.isValid written.name = true := by
  obtain ⟨_, _, ended⟩ := readDeclaration_eq_ok_iff.mp read
  cases ended with
  | argument spells => exact spells.isName.isValid

theorem step_isLoadable {index : Nat} {line : String} {state later : State}
    (loadable : state.IsLoadable) (done : (step index line state).1 = .ok later) :
    later.IsLoadable := by
  unfold step at done
  split at done
  · cases done
    exact loadable
  · split at done
    · cases done
    · cases done
    · rename_i written names read
      cases done
      intro name member
      rcases List.mem_append.mp member with old | new
      · exact loadable name old
      · rw [List.mem_singleton.mp new]
        exact isValid_of_readDeclaration read
    · rename_i state _ _ _ _ _
      obtain ⟨extended, added, rfl⟩ := map_eq_ok.mp done
      cases state with
      | declaring names =>
        obtain ⟨framework, listed, added⟩ := bind_eq_ok.mp added
        exact (isLoadable_of_declare loadable listed).addAttack (mapError_eq_ok.mp added)
      | attacking framework =>
        have known : framework.IsLoadable := loadable
        exact known.addAttack (mapError_eq_ok.mp added)

theorem isLoadable_of_read {lines : List Text.Line} {framework : Framework String}
    (done : (read lines).result = .ok framework) : framework.IsLoadable := by
  refine readLines_invariant (fun _ _ _ _ => step_isLoadable)
    (fun state framework loadable finished => ?_) (by simp [State.IsLoadable]) done
  cases state with
  | declaring names => exact isLoadable_of_declare loadable finished
  | attacking other =>
    cases finished
    exact loadable

end Apx

end Format

/-- A solver never refuses to enable an argument with a valid label. -/
theorem DynamicSolver.Coherent.applyPatch_enable {solver : DynamicSolver String}
    (coherent : solver.Coherent) {label : String} (valid : Label.isValid label = true) :
    (solver.applyPatch (.enable (.argument label))).1 = .ok () := by
  have follows := coherent.applyPatch (.enable (.argument label))
  cases expected : solver.registry.applyPatch (.enable (.argument label)) with
  | ok later =>
    rw [expected] at follows
    exact follows.1
  | error error =>
    have refused := Registry.applyPatch_eq_error.mp expected
    simp [Registry.refusal?, valid] at refused

namespace InstanceFormat

/-- What is read from any source can be loaded. -/
theorem isLoadable_of_read {format : InstanceFormat} {lines : List Text.Line}
    {framework : Framework String} (read : (format.read lines).result = .ok framework) :
    framework.IsLoadable := by
  cases format with
  | apx => exact Format.Apx.isLoadable_of_read read
  | tgf => exact Format.Tgf.isLoadable_of_read read

/-- Whatever bytes an instance is read from, a new solver takes in its framework and has that
framework active. The labels of an update line that was read are valid, so no solver refuses to
enable one of its arguments, whatever it was asked before. -/
theorem read_then_load (format : InstanceFormat) :
    (forall (bytes : ByteArray) (framework : Framework String),
      (format.read (Text.linesOfBytes bytes)).result = .ok framework ->
      let loaded := DynamicSolver.empty.load framework
      loaded.1 = .ok () ∧ ∃ active, loaded.2.activeFramework = .ok active ∧
        active.arguments.labels = framework.arguments.labels ∧
        active.attackList = framework.attackList) ∧
    forall (line : String) (patches : List (Patch String)),
      format.readUpdate line = .ok patches ->
      (forall patch, patch ∈ patches -> FromScratch.IsValid patch.element) ∧
      forall requests label, .enable (.argument label) ∈ patches ->
        ((DynamicSolver.run requests).applyPatch (.enable (.argument label))).1 = .ok () := by
  refine ⟨fun bytes framework read => ?_, fun line patches read => ?_⟩
  · intro loaded
    have loadable := isLoadable_of_read read
    exact ⟨(DynamicSolver.load_exact loadable).1, DynamicSolver.activeFramework_load loadable⟩
  · have valid := isValid_of_readUpdate read
    exact ⟨valid, fun requests label member =>
      (DynamicSolver.coherent_run requests).1.applyPatch_enable (valid _ member)⟩

/-- An instance with padded names, and an update that adds an argument and an attack. -/
theorem read_then_load_pair :
    (∃ framework active,
      (apx.read (Text.linesOfBytes "arg( a ).\r\narg(b).\n\natt(b,a).".toUTF8)).result =
        .ok framework ∧
      framework.arguments.labels = ["a", "b"] ∧ framework.attackList = [("b", "a")] ∧
      (DynamicSolver.empty.load framework).1 = .ok () ∧
      (DynamicSolver.empty.load framework).2.activeFramework = .ok active ∧
      active.arguments.labels = ["a", "b"] ∧ active.attackList = [("b", "a")]) ∧
    ∃ patches, tgf.readUpdate "+ c-1:c-1 a" = .ok patches ∧
      patches = [.enable (.argument "c-1"), .enable (.attack "c-1" "a")] ∧
      (DynamicSolver.empty.applyPatch (.enable (.argument "c-1"))).1 = .ok () := by
  obtain ⟨loaded, active, found, labels, attacks⟩ := (read_then_load apx).1
    "arg( a ).\r\narg(b).\n\natt(b,a).".toUTF8 _ rfl
  refine ⟨⟨_, active, rfl, rfl, rfl, loaded, found, labels, attacks⟩, _, rfl, rfl, ?_⟩
  exact ((read_then_load tgf).2 "+ c-1:c-1 a" _ rfl).2 [] "c-1" (by decide)

end InstanceFormat

end Argumentation
