import Argumentation.Proofs.Framework.Construction
import Argumentation.Proofs.Solver.Scratch

/-!
# Answers from scratch

Every framework that can be built is either refused for its first invalid label, whatever is asked,
or compiled and answered in terms of its extensions. Compiling meets no other obstacle: batches come
after those they need, and no two of them are for the same element.
-/

namespace Argumentation.FromScratch

open Argumentation.Session

variable {α : Type} [DecidableEq α] [Label α] {framework : Framework α} {setting : Setting}

/-- Compiling stops at the first label that is not valid. -/
theorem build_of_invalid (consistent : framework.Consistent) {invalid : α}
    (first : framework.arguments.labels.find? (fun label => !Label.isValid label) = some invalid) :
    (build framework).1 = .error (.invalidLabel invalid) := by
  obtain ⟨refused, before, after, split, valid⟩ := List.find?_eq_some_iff_append.mp first
  unfold build
  extract_lets noted
  have begun : noted.Encoded {} := Encoded.empty.of_settled (Settled.empty.note _ _) rfl
  have distinct : (before.map Element.argument).Nodup := by
    have all := consistent.arguments.distinct
    rw [split] at all
    exact (List.nodup_append.mp all).1.map fun _ _ same => Element.argument.inj same
  obtain ⟨applied, _⟩ := applyAll_exact begun (before.map .argument) distinct
    (fun element member => by
      obtain ⟨label, known, rfl⟩ := List.mem_map.mp member
      simpa [IsValid] using valid label known)
    (by simp)
  have parts : elements framework = before.map .argument ++ (.argument invalid ::
      (after.map .argument ++
        framework.attackList.map fun attack => .attack attack.1 attack.2)) := by
    simp [elements, split]
  have stopped : Encoding.batch (.argument invalid) = .error (.invalidLabel invalid) :=
    Encoding.argumentBatch_of_invalid (by simpa using refused)
  rw [parts, applyAll_append applied, applyAll, stopped]

/-- Every query fails when compiling does, but an undefined argument is reported first. -/
theorem queries_of_refused (setting : Setting) {error : Error α}
    (refused : (build framework).1 = .error error) :
    (enumerate setting framework).1 = .error (.error error) ∧
      (count setting framework).1 = .error (.error error) ∧
      (computeOne setting framework).1 = .error error ∧
      forall label argument, framework.arguments.find label = .ok argument ->
        (isAccepted setting framework label).1 = .error error := by
  have split : build framework = (.error error, (build framework).2) := Prod.ext refused rfl
  have enumerated : (enumerate setting framework).1 = .error (.error error) := by
    rw [enumerate, split]
  refine ⟨enumerated, congrArg (Except.map List.length) enumerated, ?_,
    fun label argument found => ?_⟩
  · rw [computeOne, split]
  · rw [isAccepted, found, split]

/-- One of the extensions is computed. -/
theorem computeOne_exact (consistent : framework.Consistent)
    (valid : forall label, label ∈ framework.arguments.labels -> Label.isValid label = true)
    (sound : setting.engine.Sound) (complete : setting.engine.Complete) :
    ∃ extension, (computeOne setting framework).1 = .ok (some extension) ∧
      framework.IsExtension extension := by
  obtain ⟨session, built, represents, _⟩ := build_exact consistent valid
  rw [computeOne, built]
  exact represents.findModel sound complete

/-- Every framework that can be built is refused for its first invalid label, if it has one, and
otherwise all that is asked is answered in terms of its extensions. -/
theorem answers_built (built : framework.IsBuilt) (setting : Setting)
    (unlimited : setting.timeout = none) (sound : setting.engine.Sound)
    (complete : setting.engine.Complete) :
    match framework.arguments.labels.find? fun label => !Label.isValid label with
    | some invalid =>
      (enumerate setting framework).1 = .error (.error (.invalidLabel invalid)) ∧
      (count setting framework).1 = .error (.error (.invalidLabel invalid)) ∧
      (computeOne setting framework).1 = .error (.invalidLabel invalid) ∧
      forall label, (isAccepted setting framework label).1 =
        if label ∈ framework.arguments.labels then .error (.invalidLabel invalid)
        else .error (.unknownArgument label)
    | none => ∃ extensions, (enumerate setting framework).1 = .ok extensions ∧
      extensions.Nodup ∧
      (forall extension, extension ∈ extensions ↔ framework.IsExtension extension) ∧
      (forall members, IsAdmissible (fun label => label ∈ framework.arguments.labels)
          (fun attacker attacked => (attacker, attacked) ∈ framework.attackList) members ->
        ∃! extension, extension ∈ extensions ∧
          forall label, label ∈ extension ↔ label ∈ members) ∧
      (count setting framework).1 = .ok extensions.length ∧
      (∃ extension, extension ∈ extensions ∧
        (computeOne setting framework).1 = .ok (some extension)) ∧
      forall label, (isAccepted setting framework label).1 =
        if label ∈ framework.arguments.labels then
          .ok (extensions.any fun extension => extension.contains label)
        else .error (.unknownArgument label) := by
  have consistent := built.consistent
  split
  · rename_i invalid first
    obtain ⟨enumerated, counted, computed, answered⟩ :=
      queries_of_refused setting (build_of_invalid consistent first)
    refine ⟨enumerated, counted, computed, fun label => ?_⟩
    split
    · rename_i known
      obtain ⟨_, _, found⟩ := consistent.arguments.find_of_mem known
      exact answered label _ found
    · rename_i unknown
      exact isAccepted_of_unknown consistent unknown
  · rename_i none
    have valid : forall label, label ∈ framework.arguments.labels ->
        Label.isValid label = true := by
      simpa using none
    obtain ⟨extensions, solved, nodup, exact⟩ :=
      enumerate_exact consistent valid unlimited sound complete
    obtain ⟨one, computed, isExtension⟩ := computeOne_exact consistent valid sound complete
    refine ⟨extensions, solved, nodup, exact, fun members admissible => ?_,
      count_of_enumerate solved, ⟨one, (exact one).mpr isExtension, computed⟩, fun label => ?_⟩
    · simp only [exact]
      exact consistent.existsUnique_isExtension admissible
    · split
      · rename_i known
        obtain ⟨accepted, answered, means⟩ :=
          isAccepted_exact consistent valid sound complete known
        rw [answered, Except.ok.injEq, Bool.eq_iff_iff, means]
        simp [exact]
      · rename_i unknown
        exact isAccepted_of_unknown consistent unknown

/-- Two arguments that attack each other, one of which also attacks a third one that attacks
itself. -/
theorem answers_built_mutual :
    ({ engine := .searching } : Setting).timeout = none ∧ Sat.Engine.searching.Sound ∧
      Sat.Engine.searching.Complete ∧
      ∃ framework : Framework Int,
        Framework.ofLists [1, 2, 3] [(1, 2), (2, 1), (3, 3), (2, 3)] = .ok framework ∧
        framework.IsBuilt ∧
        (isAccepted { engine := .searching } framework 3).1 = .ok false ∧
        (isAccepted { engine := .searching } framework 4).1 = .error (.unknownArgument 4) := by
  obtain ⟨framework, listed⟩ : ∃ framework : Framework Int,
      Framework.ofLists [1, 2, 3] [(1, 2), (2, 1), (3, 3), (2, 3)] = .ok framework := ⟨_, rfl⟩
  obtain ⟨built, labels, attacks⟩ := Framework.isBuilt_ofLists listed
  have answers := answers_built built { engine := .searching } rfl
    Sat.Engine.searching_sound Sat.Engine.searching_complete
  have valid : ([1, 2, 3] : List Int).find? (fun label => !Label.isValid label) = none := by
    decide +kernel
  rw [labels, valid] at answers
  obtain ⟨extensions, _, _, exact, _, _, _, accepted⟩ := answers
  refine ⟨rfl, Sat.Engine.searching_sound, Sat.Engine.searching_complete, framework, listed, built,
    ?_, ?_⟩
  · rw [accepted 3, if_pos (by decide), Except.ok.injEq, List.any_eq_false]
    intro extension member inside
    obtain ⟨_, admissible⟩ := (exact extension).mp member
    have loop := admissible.conflictFree 3 3 (by simp [attacks])
    exact loop (List.contains_iff_mem.mp inside) (List.contains_iff_mem.mp inside)
  · rw [accepted 4, if_neg (by decide)]

end Argumentation.FromScratch
