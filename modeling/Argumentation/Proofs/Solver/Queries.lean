import Argumentation.Proofs.Solver.Activity
import Mathlib.Data.Multiset.Defs

/-!
# Queries of the solver

A solver answers its queries in two ways: an enumeration lists all the extensions, and a single call
decides whether an argument is accepted or gives one extension. Both speak of the registry alone, so
they agree after every run, and as queries leave the registry as it is, a run answers like the one
in which nothing was asked (`DynamicSolver.answersAlike_run`).
-/

namespace Argumentation

variable {α : Type}

/-- Without a time limit, with a sound and complete engine. -/
structure Setting.Reliable (setting : Setting) : Prop where
  unlimited : setting.timeout = none
  sound : setting.engine.Sound
  complete : setting.engine.Complete

/-- Whether a request may change a solver. -/
def DynamicSolver.Request.operates : Request α -> Bool
  | .enumerate _ | .count _ | .computeOne _ | .isAccepted _ _ => false
  | _ => true

variable [DecidableEq α] [Label α]

/-- The account of a run passes over queries. -/
theorem Registry.run_filter (requests : List (DynamicSolver.Request α)) :
    Registry.run (requests.filter DynamicSolver.Request.operates) = Registry.run requests := by
  rw [Registry.run, List.foldl_filter, Registry.run]
  congr 1
  funext registry request
  cases request <;> rfl

namespace DynamicSolver

variable {solver other : DynamicSolver α}

/-- Two solvers give the same answers to the next query, whatever it is. An enumeration lists the
same extensions in some order, and one extension may be another one. -/
structure AnswersAlike (solver other : DynamicSolver α) : Prop where
  isActiveArgument : forall label, other.isActiveArgument label = solver.isActiveArgument label
  isActiveAttack : forall attacker attacked,
    other.isActiveAttack attacker attacked = solver.isActiveAttack attacker attacked
  enumerate : forall {first second : Setting}, first.Reliable -> second.Reliable ->
    (other.enumerate second).1.map Multiset.ofList = (solver.enumerate first).1.map Multiset.ofList
  count : forall {first second : Setting}, first.Reliable -> second.Reliable ->
    (other.count second).1 = (solver.count first).1
  computeOne : forall {first second : Setting}, first.Reliable -> second.Reliable ->
    (other.computeOne second).1.map Option.isSome = (solver.computeOne first).1.map Option.isSome
  isAccepted : forall {first second : Setting}, first.Reliable -> second.Reliable ->
    forall label, (other.isAccepted second label).1 = (solver.isAccepted first label).1

/-- The activity of an argument is told by the registry; what is unknown is reported. -/
theorem Coherent.isActiveArgument_eq (coherent : solver.Coherent) (label : α) :
    solver.isActiveArgument label = (do
      solver.registry.checkKnown label
      .ok (solver.registry.active (.argument label))) := by
  rw [Registry.checkKnown_bind]
  split
  · rename_i known
    exact coherent.isActiveArgument known
  · rename_i unknown
    exact coherent.isActiveArgument_of_unknown unknown

/-- Solvers with the same registry represent the same framework. -/
theorem Coherent.represents_same (coherent : solver.Coherent) (also : other.Coherent)
    (registry : other.registry = solver.registry) :
    ∃ framework, solver.session.Represents framework ∧ other.session.Represents framework := by
  obtain ⟨framework, _, _, labels, attacks⟩ := coherent.activeFramework
  exact ⟨framework, coherent.represents labels attacks,
    also.represents (registry ▸ labels) (registry ▸ attacks)⟩

/-- The single calls of a coherent solver agree with its enumeration. -/
theorem Coherent.calls_agree (coherent : solver.Coherent) {first second : Setting}
    (reliable : first.Reliable) (reliableToo : second.Reliable) :
    ∃ extensions, (solver.enumerate first).1 = .ok extensions ∧
      (∃ extension, (solver.computeOne second).1 = .ok (some extension) ∧
        extension ∈ extensions) ∧
      forall label, label ∈ solver.registry.labels ->
        ∃ accepted, (solver.isAccepted second label).1 = .ok accepted ∧
          (accepted = true ↔ ∃ extension, extension ∈ extensions ∧ label ∈ extension) := by
  obtain ⟨framework, represents, _⟩ := coherent.represents_same coherent rfl
  obtain ⟨extensions, solved, _, exact⟩ :=
    enumerate_exact represents reliable.unlimited reliable.sound reliable.complete
  obtain ⟨extension, computed, isExtension⟩ :=
    represents.findModel reliableToo.sound reliableToo.complete
  refine ⟨extensions, solved, ⟨extension, computed, (exact extension).mpr isExtension⟩,
    fun label known => ?_⟩
  simp only [exact]
  exact coherent.isAccepted_exact represents reliableToo.sound reliableToo.complete known

section Alike

variable {first second : Setting}

/-- Coherent solvers with the same registry list the same extensions. -/
theorem Coherent.enumerate_perm (coherent : solver.Coherent) (also : other.Coherent)
    (registry : other.registry = solver.registry) (reliable : first.Reliable)
    (reliableToo : second.Reliable) :
    ∃ extensions others, (solver.enumerate first).1 = .ok extensions ∧
      (other.enumerate second).1 = .ok others ∧ extensions.Perm others := by
  obtain ⟨framework, represents, representsToo⟩ := coherent.represents_same also registry
  obtain ⟨extensions, solved, nodup, exact⟩ :=
    enumerate_exact represents reliable.unlimited reliable.sound reliable.complete
  obtain ⟨others, solvedToo, distinct, same⟩ :=
    enumerate_exact representsToo reliableToo.unlimited reliableToo.sound reliableToo.complete
  exact ⟨extensions, others, solved, solvedToo, (List.perm_ext_iff_of_nodup nodup distinct).mpr
    fun extension => (exact extension).trans (same extension).symm⟩

/-- Coherent solvers with the same registry accept the same arguments. -/
theorem Coherent.isAccepted_eq (coherent : solver.Coherent) (also : other.Coherent)
    (registry : other.registry = solver.registry) (reliable : first.Reliable)
    (reliableToo : second.Reliable) (label : α) :
    (other.isAccepted second label).1 = (solver.isAccepted first label).1 := by
  by_cases known : label ∈ solver.registry.labels
  · obtain ⟨framework, represents, representsToo⟩ := coherent.represents_same also registry
    obtain ⟨accepted, answered, means⟩ :=
      coherent.isAccepted_exact represents reliable.sound reliable.complete known
    obtain ⟨acceptedToo, answeredToo, meansToo⟩ :=
      also.isAccepted_exact representsToo reliableToo.sound reliableToo.complete
        (registry ▸ known)
    rw [answered, answeredToo, Except.ok.injEq, Bool.eq_iff_iff]
    exact meansToo.trans means.symm
  · rw [coherent.isAccepted_of_unknown known, also.isAccepted_of_unknown (registry ▸ known)]

/-- Coherent solvers with the same registry answer alike. -/
theorem Coherent.answersAlike (coherent : solver.Coherent) (also : other.Coherent)
    (registry : other.registry = solver.registry) : solver.AnswersAlike other where
  isActiveArgument label := by
    rw [also.isActiveArgument_eq, coherent.isActiveArgument_eq, registry]
  isActiveAttack attacker attacked := by
    rw [also.isActiveAttack_eq, coherent.isActiveAttack_eq, registry]
  enumerate reliable reliableToo := by
    obtain ⟨extensions, others, solved, solvedToo, perm⟩ :=
      coherent.enumerate_perm also registry reliable reliableToo
    rw [solved, solvedToo]
    exact congrArg Except.ok (Multiset.coe_eq_coe.mpr perm.symm)
  count reliable reliableToo := by
    obtain ⟨extensions, others, solved, solvedToo, perm⟩ :=
      coherent.enumerate_perm also registry reliable reliableToo
    rw [count_of_enumerate solved, count_of_enumerate solvedToo, perm.length_eq]
  computeOne reliable reliableToo := by
    obtain ⟨_, _, ⟨one, computed, _⟩, _⟩ := coherent.calls_agree reliable reliable
    obtain ⟨_, _, ⟨another, computedToo, _⟩, _⟩ := also.calls_agree reliableToo reliableToo
    rw [computed, computedToo]
    rfl
  isAccepted reliable reliableToo := coherent.isAccepted_eq also registry reliable reliableToo

end Alike

/-- Queries leave no trace in a run, wherever they are made. -/
theorem answersAlike_run {requests others : List (Request α)}
    (same : requests.filter Request.operates = others.filter Request.operates) :
    (run requests).AnswersAlike (run others) := by
  obtain ⟨coherent, account⟩ := coherent_run requests
  obtain ⟨also, accountToo⟩ := coherent_run others
  refine coherent.answersAlike also ?_
  rw [account, accountToo, ← Registry.run_filter, ← same, Registry.run_filter]

/-- After any run, the single calls agree with the enumeration. Arguments that were never added are
unknown; any other is accepted exactly when a listed extension has it, so an inactive one never is.
One extension is always found, and it is one of those listed. Queries do not bear on these answers,
whatever they were answered and wherever they were made. -/
theorem queries_run (requests : List (Request α)) {setting other : Setting}
    (reliable : setting.Reliable) (reliableToo : other.Reliable) :
    let solver := run requests
    (∃ extensions, (solver.enumerate setting).1 = .ok extensions ∧
      (forall label, if .argument label ∈ (history requests).added then
        ∃ accepted, (solver.isAccepted other label).1 = .ok accepted ∧
          (accepted = true ↔ ∃ extension, extension ∈ extensions ∧ label ∈ extension)
        else (solver.isAccepted other label).1 = .error (.unknownArgument label)) ∧
      (forall label, solver.isActiveArgument label = .ok false ->
        (solver.isAccepted other label).1 = .ok false) ∧
      ∃ extension, (solver.computeOne other).1 = .ok (some extension) ∧
        extension ∈ extensions) ∧
      forall others, requests.filter Request.operates = others.filter Request.operates ->
        solver.AnswersAlike (run others) := by
  intro solver
  have coherent : solver.Coherent := (coherent_run requests).1
  have lists := Registry.lists_ofHistory (history requests)
  rw [← registry_run] at lists
  obtain ⟨extensions, solved, one, accepts⟩ := coherent.calls_agree reliable reliableToo
  refine ⟨⟨extensions, solved, fun label => ?_, fun label inactive => ?_, one⟩,
    fun others same => answersAlike_run same⟩
  · have known : solver.registry.Knows (.argument label) ↔
        .argument label ∈ (history requests).added := lists.knows_iff
    split
    · rename_i added
      exact accepts label (known.mpr added)
    · rename_i unknown
      exact coherent.isAccepted_of_unknown (mt known.mp unknown)
  · simp only [DynamicSolver.isAccepted, inactive]

/-- An argument that attacks itself and another one that was disabled, with queries in between that
an engine answered wrongly. -/
def loopAndAbsence : List (Request Int) :=
  [.newArgument 1, .isAccepted { engine := .scripted [] } 1, .newAttack 1 1, .newArgument 2,
    .enumerate { engine := .scripted [.satisfiable ⟨[]⟩, .unknown] },
    .disableArgument 2, .computeOne { engine := .scripted [] }]

theorem queries_run_loopAndAbsence :
    ({ engine := .searching } : Setting).Reliable ∧
      (∃ extensions, ((run loopAndAbsence).enumerate { engine := .searching }).1 = .ok extensions ∧
        ∃ accepted, ((run loopAndAbsence).isAccepted { engine := .searching } 1).1 = .ok accepted ∧
          (accepted = true ↔ ∃ extension, extension ∈ extensions ∧ 1 ∈ extension)) ∧
      ((run loopAndAbsence).isAccepted { engine := .searching } 3).1 =
        .error (.unknownArgument 3) ∧
      ((run loopAndAbsence).isActiveArgument 2 = .ok false ∧
        ((run loopAndAbsence).isAccepted { engine := .searching } 2).1 = .ok false) ∧
      loopAndAbsence.filter Request.operates =
        [.newArgument 1, .newAttack 1 1, .newArgument 2, .disableArgument 2] ∧
      (run loopAndAbsence).AnswersAlike
        (run [.newArgument 1, .newAttack 1 1, .newArgument 2, .disableArgument 2]) := by
  have reliable : ({ engine := .searching } : Setting).Reliable :=
    ⟨rfl, Sat.Engine.searching_sound, Sat.Engine.searching_complete⟩
  have added : (history loopAndAbsence).added = [.argument 1, .attack 1 1, .argument 2] := by
    decide +kernel
  have inactive : (run loopAndAbsence).isActiveArgument 2 = .ok false := by decide +kernel
  obtain ⟨⟨extensions, solved, accepts, absent, _⟩, alike⟩ :=
    queries_run loopAndAbsence reliable reliable
  have first := accepts 1
  have third := accepts 3
  rw [added] at first third
  exact ⟨reliable, ⟨extensions, solved, by simpa using first⟩, by simpa using third,
    ⟨inactive, absent 2 inactive⟩, rfl, alike _ rfl⟩

end DynamicSolver

end Argumentation
