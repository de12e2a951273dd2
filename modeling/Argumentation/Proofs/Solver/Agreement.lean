import Argumentation.Proofs.Solver.Answers
import Argumentation.Proofs.Solver.Scratch

/-!
# The two solvers agree

The dynamic solver answers from the clauses of a whole run, solving from scratch from those of the
active framework alone. Both sessions represent this framework, so the answers are the same up to
the order in which their engines find the extensions. They differ for an argument that is known but
not active: it is not accepted by the one and not defined for the other.
-/

namespace Argumentation.DynamicSolver

variable {α : Type} [DecidableEq α] [Label α]

/-- After any run, both solvers list the same extensions and accept the same active arguments. -/
theorem agreement_run (requests : List (Request α)) (first second : Setting)
    (unlimited : first.timeout = none ∧ second.timeout = none)
    (sound : first.engine.Sound ∧ second.engine.Sound)
    (complete : first.engine.Complete ∧ second.engine.Complete) :
    let solver := run requests
    ∃ framework, solver.activeFramework = .ok framework ∧
      (∃ incremental scratch, (solver.enumerate first).1 = .ok incremental ∧
        (FromScratch.enumerate second framework).1 = .ok scratch ∧ incremental.Perm scratch) ∧
      (∃ number, (solver.count first).1 = .ok number ∧
        (FromScratch.count second framework).1 = .ok number) ∧
      forall label, match solver.isActiveArgument label with
        | .ok true => ∃ accepted, (solver.isAccepted first label).1 = .ok accepted ∧
          (FromScratch.isAccepted second framework label).1 = .ok accepted
        | .ok false => (solver.isAccepted first label).1 = .ok false ∧
          (FromScratch.isAccepted second framework label).1 = .error (.unknownArgument label)
        | .error error => (solver.isAccepted first label).1 = .error error ∧
          (FromScratch.isAccepted second framework label).1 = .error error := by
  intro solver
  have coherent : solver.Coherent := (coherent_run requests).1
  obtain ⟨framework, active, consistent, labels, attacks⟩ := coherent.activeFramework
  have represents := coherent.represents labels attacks
  have valid : forall label, label ∈ framework.arguments.labels -> Label.isValid label = true := by
    intro label member
    rw [labels] at member
    exact coherent.valid label (List.mem_filter.mp member).1
  obtain ⟨incremental, solved, nodup, exact⟩ :=
    enumerate_exact represents unlimited.1 sound.1 complete.1
  obtain ⟨scratch, listed, distinct, same⟩ :=
    FromScratch.enumerate_exact consistent valid unlimited.2 sound.2 complete.2
  have perm : incremental.Perm scratch :=
    (List.perm_ext_iff_of_nodup nodup distinct).mpr fun extension =>
      (exact extension).trans (same extension).symm
  refine ⟨framework, active, ⟨incremental, scratch, solved, listed, perm⟩,
    ⟨incremental.length, count_of_enumerate solved, ?_⟩, fun label => ?_⟩
  · rw [perm.length_eq]
    exact FromScratch.count_of_enumerate listed
  · by_cases known : label ∈ solver.registry.labels
    · rw [coherent.isActiveArgument known]
      have defined := represents.mem_labels_iff label
      cases activity : solver.registry.active (.argument label) with
      | true =>
        obtain ⟨one, answered, means⟩ :=
          coherent.isAccepted_exact represents sound.1 complete.1 known
        obtain ⟨other, replied, meaning⟩ := FromScratch.isAccepted_exact consistent valid sound.2
          complete.2 (defined.mpr activity)
        have agree : one = other := Bool.eq_iff_iff.mpr (means.trans meaning.symm)
        exact ⟨other, agree ▸ answered, replied⟩
      | false =>
        have undefined : label ∉ framework.arguments.labels := fun member =>
          Bool.false_ne_true (activity.symm.trans (defined.mp member))
        exact ⟨coherent.isAccepted_of_inactive known activity,
          FromScratch.isAccepted_of_unknown consistent undefined⟩
    · rw [coherent.isActiveArgument_of_unknown known]
      refine ⟨coherent.isAccepted_of_unknown known,
        FromScratch.isAccepted_of_unknown consistent fun member => known ?_⟩
      rw [labels] at member
      exact (List.mem_filter.mp member).1

/-- An argument that came back, but without the attack on it, and one that went away. -/
def reenabled : List (Request Int) :=
  [.newArgument 1, .newArgument 2, .newArgument 3, .newAttack 1 2, .disableArgument 2,
    .computeOne { engine := .scripted [.satisfiable ⟨[]⟩] }, .enableArgument 2,
    .applyPatch (.disable (.argument 3)), .enableAttack 1 3]

theorem agreement_run_reenabled :
    let setting : Setting := { engine := .searching }
    setting.timeout = none ∧ setting.engine.Sound ∧ setting.engine.Complete ∧
      ∃ framework, (run reenabled).activeFramework = .ok framework ∧
        (∃ accepted, ((run reenabled).isAccepted setting 2).1 = .ok accepted ∧
          (FromScratch.isAccepted setting framework 2).1 = .ok accepted) ∧
        ((run reenabled).isAccepted setting 3).1 = .ok false ∧
        (FromScratch.isAccepted setting framework 3).1 = .error (.unknownArgument 3) := by
  intro setting
  have sound : setting.engine.Sound := Sat.Engine.searching_sound
  have complete : setting.engine.Complete := Sat.Engine.searching_complete
  obtain ⟨framework, active, _, _, same⟩ :=
    agreement_run reenabled setting setting ⟨rfl, rfl⟩ ⟨sound, sound⟩ ⟨complete, complete⟩
  have back : (run reenabled).isActiveArgument 2 = .ok true := by decide +kernel
  have away : (run reenabled).isActiveArgument 3 = .ok false := by decide +kernel
  have second := same 2
  have third := same 3
  rw [back] at second
  rw [away] at third
  exact ⟨rfl, sound, complete, framework, active, second, third⟩

end Argumentation.DynamicSolver
