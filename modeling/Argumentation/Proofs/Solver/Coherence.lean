import Argumentation.Proofs.Framework.Consistency
import Argumentation.Proofs.Session.Elements
import Argumentation.Proofs.Solver.Registry
import Argumentation.Solver.Dynamic

/-!
# Coherent solvers

The framework and the session of a solver speak of the same elements, and active attacks join active
arguments. Every operation keeps this and does to the solver what it does to its registry, with the
same errors; a refused operation leaves the solver as it was.
-/

namespace Argumentation.DynamicSolver

variable {α : Type} [DecidableEq α]

/-- The registry of the elements of a solver. -/
def registry (solver : DynamicSolver α) : Registry α where
  labels := solver.framework.arguments.labels
  attacks := solver.framework.attackList
  active := solver.session.raised

variable [Label α]

/-- The framework and the session of a solver agree. -/
structure Coherent (solver : DynamicSolver α) : Prop where
  encoded : ∃ ledger, solver.session.Encoded ledger
  framework : solver.framework.Consistent
  labels : Encoding.labels solver.session.elements = solver.registry.labels
  attacks : forall attacker attacked, .attack attacker attacked ∈ solver.session.elements ↔
    (attacker, attacked) ∈ solver.registry.attacks
  valid : forall label, label ∈ solver.registry.labels -> Label.isValid label = true
  ends : forall attacker attacked, solver.registry.active (.attack attacker attacked) = true ->
    solver.registry.active (.argument attacker) = true ∧
      solver.registry.active (.argument attacked) = true

/-- An operation does to a solver what is expected of its registry. -/
def Follows (solver : DynamicSolver α) (outcome : Outcome α Unit) :
    Except (Error α) (Registry α) -> Prop
  | .ok registry => outcome.1 = .ok () ∧ outcome.2.Coherent ∧ outcome.2.registry = registry
  | .error error => outcome = (.error error, solver)

theorem Coherent.empty : (empty : DynamicSolver α).Coherent where
  encoded := ⟨{}, .empty⟩
  framework := .empty
  labels := rfl
  attacks attacker attacked := by
    simp [DynamicSolver.empty, registry, Session.elements, Framework.attackList]
  valid label member := by simp [DynamicSolver.empty, registry] at member
  ends attacker attacked active := by
    simp [DynamicSolver.empty, registry, Session.raised, Session.flagValue?,
      Session.flag?] at active

section Coherent

variable {solver : DynamicSolver α}

theorem Coherent.argument_mem_iff (coherent : solver.Coherent) {label : α} :
    .argument label ∈ solver.session.elements ↔ label ∈ solver.registry.labels := by
  rw [← coherent.labels, Encoding.mem_labels]

/-- The activity of a known argument is told by its flag. -/
theorem Coherent.flag_argument (coherent : solver.Coherent) {label : α}
    (known : label ∈ solver.registry.labels) :
    solver.session.flag (.argument label) = .ok (solver.registry.active (.argument label)) := by
  obtain ⟨ledger, encoded⟩ := coherent.encoded
  exact encoded.flag_of_mem (coherent.argument_mem_iff.mpr known)

theorem Coherent.flag_attack (coherent : solver.Coherent) {attacker attacked : α}
    (known : (attacker, attacked) ∈ solver.registry.attacks) :
    solver.session.flag (.attack attacker attacked) =
      .ok (solver.registry.active (.attack attacker attacked)) := by
  obtain ⟨ledger, encoded⟩ := coherent.encoded
  exact encoded.flag_of_mem ((coherent.attacks attacker attacked).mpr known)

/-- Flags of known elements may be set as long as active attacks keep active ends. -/
theorem Coherent.setFlags (coherent : solver.Coherent) (value : Bool)
    (chosen : List (Element α))
    (known : forall element, element ∈ chosen -> element ∈ solver.session.elements)
    (active : Element α -> Bool)
    (effect : forall other, (if other ∈ chosen then value else solver.registry.active other) =
      active other)
    (ends : forall attacker attacked, active (.attack attacker attacked) = true ->
      active (.argument attacker) = true ∧ active (.argument attacked) = true) :
    solver.Follows (solver.setFlags value chosen) (.ok { solver.registry with active }) := by
  obtain ⟨ledger, encoded⟩ := coherent.encoded
  obtain ⟨done, later, elements, raised⟩ := encoded.setFlags value known
  have same : (solver.session.setFlags value chosen).2.raised = active :=
    funext fun other => (raised other).trans (effect other)
  refine ⟨done, ⟨⟨ledger, later⟩, coherent.framework, ?_, ?_, coherent.valid, ?_⟩, ?_⟩
  · exact (congrArg Encoding.labels elements).trans coherent.labels
  · intro attacker attacked
    simp only [DynamicSolver.setFlags, elements]
    exact coherent.attacks attacker attacked
  · simp only [registry, DynamicSolver.setFlags, same]
    exact ends
  · simp only [registry, DynamicSolver.setFlags, same]

end Coherent

end Argumentation.DynamicSolver
