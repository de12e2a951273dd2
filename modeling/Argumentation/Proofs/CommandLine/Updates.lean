import Argumentation.Problem
import Argumentation.Proofs.Format.Labels
import Argumentation.Proofs.Format.Order
import Argumentation.Proofs.Solver.History

/-!
# Answers to updates

What a sequence of update lines should bring about, told without solvers and engines: the plain
account of the changes, the texts that answer a query about the active elements, and the answers
given before the first line that cannot be carried out. All of it is determined by the lines.
-/

namespace Argumentation

section Updates

variable {α : Type} [DecidableEq α] [Label α]

namespace Registry

/-- Changes made one after the other, up to the first refusal. -/
def applyPatches (registry : Registry α) (patches : List (Patch α)) :
    Except (Error α) (Registry α) :=
  patches.foldlM applyPatch registry

theorem applyPatches_cons (registry : Registry α) (patch : Patch α) (rest : List (Patch α)) :
    registry.applyPatches (patch :: rest) =
      match registry.applyPatch patch with
      | .ok later => later.applyPatches rest
      | .error error => .error error := by
  rw [applyPatches, List.foldlM_cons]
  cases registry.applyPatch patch <;> rfl

omit [Label α] in
theorem knows_follow {registry : Registry α} {element : Element α}
    (known : registry.Knows element) (patch : Patch α) :
    (registry.follow patch).Knows element := by
  cases patch with
  | enable other =>
    have kept : (if registry.Knows other then registry else registry.add other).Knows element := by
      split
      · exact known
      · exact knows_add.mpr (.inl known)
    cases element <;> exact kept
  | disable other => cases element <;> exact known

/-- What is known stays known. -/
theorem knows_applyPatches {registry later : Registry α} {element : Element α}
    {patches : List (Patch α)} (known : registry.Knows element)
    (done : registry.applyPatches patches = .ok later) : later.Knows element := by
  induction patches generalizing registry with
  | nil =>
    cases done
    exact known
  | cons patch rest ih =>
    obtain ⟨next, first, others⟩ := bind_eq_ok.mp done
    refine ih ?_ others
    rw [follow_of_applyPatch first]
    exact knows_follow known patch

end Registry

end Updates

/-- The extensions of the active elements. -/
def Registry.IsExtension {α : Type} (registry : Registry α) (extension : Extension α) : Prop :=
  extension.Sublist registry.activeLabels ∧
    IsAdmissible (fun label => label ∈ registry.activeLabels)
      (fun attacker attacked => (attacker, attacked) ∈ registry.activeAttacks) extension

namespace CommandLine

/-- The registry after an update line. There is none when the line cannot be read or when one of
its changes is refused. -/
def afterLine? (format : InstanceFormat) (registry : Registry String) :
    Text.Line -> Option (Registry String)
  | .error _ => none
  | .ok line =>
    match format.readUpdate line with
    | .error _ => none
    | .ok patches => (registry.applyPatches patches).toOption

/-- The registry after some update lines, which all have to be carried out. -/
def afterLines? (format : InstanceFormat) (registry : Registry String)
    (lines : List Text.Line) : Option (Registry String) :=
  lines.foldlM (afterLine? format) registry

/-- Whether an update line says nothing. -/
def isBlankLine : Text.Line -> Bool
  | .error _ => false
  | .ok line => line.toList.all Text.isBlank

/-- These texts answer a query about the active elements: every extension on a line of its own, by
size and then by written form; the number of extensions; or whether one of them has the argument. -/
inductive Answered (registry : Registry String) :
    Query -> Option String -> List String -> Prop where
  | enumerate {argument : Option String} {extensions : List (Extension String)}
      (exact : forall extension, extension ∈ extensions ↔ registry.IsExtension extension)
      (ordered : extensions.Pairwise Extension.Before) :
      Answered registry .enumerate argument
        (extensions.map fun labels => "[" ++ String.intercalate "," labels ++ "]\n")
  | count {argument : Option String} {extensions : List (Extension String)}
      (exact : forall extension, extension ∈ extensions ↔ registry.IsExtension extension)
      (distinct : extensions.Nodup) :
      Answered registry .count argument [toString extensions.length ++ "\n"]
  | accepted {label : String}
      (inside : ∃ extension, registry.IsExtension extension ∧ label ∈ extension) :
      Answered registry .accept (some label) ["YES\n"]
  | rejected {label : String}
      (outside : ¬ ∃ extension, registry.IsExtension extension ∧ label ∈ extension) :
      Answered registry .accept (some label) ["NO\n"]

/-- A query has one answer at most. -/
theorem Answered.unique {registry : Registry String} {query : Query} {argument : Option String}
    {texts others : List String} (first : Answered registry query argument texts)
    (second : Answered registry query argument others) : texts = others := by
  cases first with
  | enumerate exact ordered =>
    cases second with
    | enumerate exact' ordered' =>
      rw [Extension.eq_of_pairwise_before ordered ordered' fun extension =>
        (exact extension).trans (exact' extension).symm]
  | count exact distinct =>
    cases second with
    | count exact' distinct' =>
      have perm := (List.perm_ext_iff_of_nodup distinct distinct').mpr fun extension =>
        (exact extension).trans (exact' extension).symm
      rw [perm.length_eq]
  | accepted inside =>
    cases second with
    | accepted _ => rfl
    | rejected outside => exact absurd inside outside
  | rejected outside =>
    cases second with
    | accepted inside => exact absurd inside outside
    | rejected _ => rfl

variable {format : InstanceFormat} {query : Query} {argument : Option String}

/-- The answers given while update lines are carried out: one at the start and one after each line,
about what is active after the lines so far. The first line that cannot be carried out has no
answer, and nor has what follows it. -/
structure AnswersUpdates (format : InstanceFormat) (query : Query) (argument : Option String)
    (start : Registry String) (updates : List Text.Line) (answers : List (List String)) : Prop where
  answered : forall number registry, number <= updates.length ->
    afterLines? format start (updates.take number) = some registry ->
      ∃ texts, answers[number]? = some texts ∧ Answered registry query argument texts
  stopped : forall number, afterLines? format start (updates.take number) = none ->
    answers[number]? = none
  ended : answers.length <= updates.length + 1

namespace AnswersUpdates

variable {start later : Registry String} {line : Text.Line} {updates : List Text.Line}
  {texts : List String} {answers others : List (List String)}

theorem nil (answered : Answered start query argument texts) :
    AnswersUpdates format query argument start [] [texts] where
  answered number registry bounded reached := by
    obtain rfl : number = 0 := Nat.le_zero.mp bounded
    cases reached
    exact ⟨texts, rfl, answered⟩
  stopped number unreached := by
    rw [List.take_nil] at unreached
    cases unreached
  ended := Nat.le_refl 1

/-- A line that cannot be carried out ends the answers. -/
theorem fault (answered : Answered start query argument texts)
    (refused : afterLine? format start line = none) (updates : List Text.Line) :
    AnswersUpdates format query argument start (line :: updates) [texts] where
  answered number registry _ reached := by
    cases number with
    | zero =>
      cases reached
      exact ⟨texts, rfl, answered⟩
    | succ number => simp [afterLines?, refused] at reached
  stopped number unreached := by
    cases number with
    | zero => cases unreached
    | succ number => simp
  ended := by simp

/-- A line that is carried out adds an answer. -/
theorem cons (answered : Answered start query argument texts)
    (carried : afterLine? format start line = some later)
    (rest : AnswersUpdates format query argument later updates answers) :
    AnswersUpdates format query argument start (line :: updates) (texts :: answers) where
  answered number registry bounded reached := by
    cases number with
    | zero =>
      cases reached
      exact ⟨texts, rfl, answered⟩
    | succ number =>
      refine rest.answered number registry (Nat.le_of_succ_le_succ bounded) ?_
      simpa [afterLines?, carried] using reached
  stopped number unreached := by
    cases number with
    | zero => cases unreached
    | succ number =>
      refine rest.stopped number ?_
      simpa [afterLines?, carried] using unreached
  ended := Nat.succ_le_succ rest.ended

/-- The lines and the query determine the answers. -/
theorem unique (first : AnswersUpdates format query argument start updates answers)
    (second : AnswersUpdates format query argument start updates others) : answers = others := by
  -- Whether there is an answer at a position is told by the lines before it.
  refine List.ext_getElem? fun number => ?_
  by_cases bounded : number <= updates.length
  · cases reached : afterLines? format start (updates.take number) with
    | none => rw [first.stopped number reached, second.stopped number reached]
    | some registry =>
      obtain ⟨texts, one, answered⟩ := first.answered number registry bounded reached
      obtain ⟨texts', other, answered'⟩ := second.answered number registry bounded reached
      rw [one, other, answered.unique answered']
  · rw [List.getElem?_eq_none (by have := first.ended; omega),
      List.getElem?_eq_none (by have := second.ended; omega)]

end AnswersUpdates

end CommandLine

end Argumentation
