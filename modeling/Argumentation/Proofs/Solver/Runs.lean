import Argumentation.Proofs.Solver.Operations

/-!
# Runs of the solver

A run is any sequence of operations and queries on a new solver, each accepted or refused. Queries
may have any setting, so that earlier ones may have been answered by a wrong engine or stopped by a
deadline. A solver is coherent after every run, and its registry is that of a plain account of the
run.
-/

namespace Argumentation

/-- What a solver may be asked to do. -/
inductive DynamicSolver.Request (α : Type) where
  | newArgument (label : α)
  | enableArgument (label : α)
  | disableArgument (label : α)
  | newAttack (attacker attacked : α)
  | enableAttack (attacker attacked : α)
  | disableAttack (attacker attacked : α)
  | applyPatch (patch : Patch α)
  | enumerate (setting : Setting)
  | count (setting : Setting)
  | computeOne (setting : Setting)
  | isAccepted (setting : Setting) (label : α)

variable {α : Type} [DecidableEq α] [Label α]

/-- The registry after an operation; a refused one does nothing. -/
def Registry.after (registry : Registry α) : Except (Error α) (Registry α) -> Registry α
  | .ok later => later
  | .error _ => registry

/-- The registry after a request; queries do nothing. -/
def Registry.perform (registry : Registry α) : DynamicSolver.Request α -> Registry α
  | .newArgument label => registry.after (registry.newArgument label)
  | .enableArgument label => registry.after (registry.enableArgument label)
  | .disableArgument label => registry.after (registry.disableArgument label)
  | .newAttack attacker attacked => registry.after (registry.newAttack attacker attacked)
  | .enableAttack attacker attacked => registry.after (registry.enableAttack attacker attacked)
  | .disableAttack attacker attacked => registry.after (registry.disableAttack attacker attacked)
  | .applyPatch patch => registry.after (registry.applyPatch patch)
  | .enumerate _ | .count _ | .computeOne _ | .isAccepted _ _ => registry

/-- The account of a run. -/
def Registry.run (requests : List (DynamicSolver.Request α)) : Registry α :=
  requests.foldl Registry.perform {}

namespace DynamicSolver

/-- The solver after a request. -/
def perform (solver : DynamicSolver α) : Request α -> DynamicSolver α
  | .newArgument label => (solver.newArgument label).2
  | .enableArgument label => (solver.enableArgument label).2
  | .disableArgument label => (solver.disableArgument label).2
  | .newAttack attacker attacked => (solver.newAttack attacker attacked).2
  | .enableAttack attacker attacked => (solver.enableAttack attacker attacked).2
  | .disableAttack attacker attacked => (solver.disableAttack attacker attacked).2
  | .applyPatch patch => (solver.applyPatch patch).2
  | .enumerate setting => (solver.enumerate setting).2
  | .count setting => (solver.count setting).2
  | .computeOne setting => (solver.computeOne setting).2
  | .isAccepted setting label => (solver.isAccepted setting label).2

/-- The solver after a sequence of requests. -/
def run (requests : List (Request α)) : DynamicSolver α :=
  requests.foldl perform empty

theorem run_append_singleton (requests : List (Request α)) (request : Request α) :
    run (requests ++ [request]) = (run requests).perform request := by
  simp [run]

section Queries

variable {solver : DynamicSolver α}

/-- What an operation leaves is coherent and as expected. -/
theorem Coherent.of_follows (coherent : solver.Coherent) {outcome : Outcome α Unit}
    {expected : Except (Error α) (Registry α)} (follows : solver.Follows outcome expected) :
    outcome.2.Coherent ∧ outcome.2.registry = solver.registry.after expected := by
  cases expected with
  | ok later => exact follows.2
  | error error =>
    have same : outcome = (.error error, solver) := follows
    rw [same]
    exact ⟨coherent, rfl⟩

/-- A change of the session that keeps what it stands for is not seen by the solver. -/
theorem Coherent.of_keeps (coherent : solver.Coherent) {session : Session α}
    {ledger : Ledger α} (settled : session.Settled ledger)
    (keeps : solver.session.Keeps session) :
    ({ solver with session } : DynamicSolver α).Coherent ∧
      ({ solver with session } : DynamicSolver α).registry = solver.registry := by
  obtain ⟨_, encoded⟩ := coherent.encoded
  have elements : session.elements = solver.session.elements :=
    Session.elements_congr keeps.batches
  have raised : session.raised = solver.session.raised := Session.raised_congr keeps.flags
  have registry : ({ solver with session } : DynamicSolver α).registry = solver.registry := by
    simp only [DynamicSolver.registry, raised]
  refine ⟨⟨⟨ledger, encoded.of_settled settled keeps.batches⟩, coherent.framework, ?_, ?_, ?_, ?_⟩,
    registry⟩
  · rw [registry, elements, coherent.labels]
  · intro attacker attacked
    rw [registry, elements, coherent.attacks]
  · rw [registry]
    exact coherent.valid
  · rw [registry]
    exact coherent.ends

theorem Coherent.enumerate (coherent : solver.Coherent) (setting : Setting) :
    (solver.enumerate setting).2.Coherent ∧
      (solver.enumerate setting).2.registry = solver.registry := by
  obtain ⟨ledger, encoded⟩ := coherent.encoded
  have noted := encoded.toSettled.note .info solver.enumerationNote
  have keeps : solver.session.Keeps (solver.session.note .info solver.enumerationNote) :=
    ⟨rfl, rfl, rfl, rfl, rfl, rfl⟩
  simp only [DynamicSolver.enumerate, Setting.enumerate]
  split
  · exact coherent.of_keeps (noted.solve _ _) (keeps.trans (Session.keeps_solve _ _ _))
  · exact coherent.of_keeps noted keeps

theorem Coherent.findModel (coherent : solver.Coherent) (engine : Sat.Engine)
    (atoms : List (Atom α)) :
    ({ solver with session := (solver.session.findModel engine atoms).2 } :
        DynamicSolver α).Coherent ∧
      ({ solver with session := (solver.session.findModel engine atoms).2 } :
        DynamicSolver α).registry = solver.registry := by
  obtain ⟨ledger, encoded⟩ := coherent.encoded
  exact coherent.of_keeps (encoded.toSettled.findModel engine atoms)
    (Session.keeps_findModel _ _ _)

theorem Coherent.isAccepted (coherent : solver.Coherent) (setting : Setting) (label : α) :
    (solver.isAccepted setting label).2.Coherent ∧
      (solver.isAccepted setting label).2.registry = solver.registry := by
  unfold DynamicSolver.isAccepted
  split
  · exact ⟨coherent, rfl⟩
  · exact ⟨coherent, rfl⟩
  · exact coherent.findModel setting.engine [.inside label]

end Queries

/-- A request keeps a solver coherent and does to it what it does to its registry. -/
theorem Coherent.perform {solver : DynamicSolver α} (coherent : solver.Coherent)
    (request : Request α) :
    (solver.perform request).Coherent ∧
      (solver.perform request).registry = solver.registry.perform request := by
  cases request with
  | newArgument label => exact coherent.of_follows (coherent.newArgument label)
  | enableArgument label => exact coherent.of_follows (coherent.enableArgument label)
  | disableArgument label => exact coherent.of_follows (coherent.disableArgument label)
  | newAttack attacker attacked => exact coherent.of_follows (coherent.newAttack attacker attacked)
  | enableAttack attacker attacked =>
    exact coherent.of_follows (coherent.enableAttack attacker attacked)
  | disableAttack attacker attacked =>
    exact coherent.of_follows (coherent.disableAttack attacker attacked)
  | applyPatch patch => exact coherent.of_follows (coherent.applyPatch patch)
  | enumerate setting => exact coherent.enumerate setting
  | count setting => exact coherent.enumerate setting
  | computeOne setting => exact coherent.findModel setting.engine []
  | isAccepted setting label => exact coherent.isAccepted setting label

/-- After every run, the solver is coherent and agrees with the account of the run. -/
theorem coherent_run (requests : List (Request α)) :
    (run requests).Coherent ∧ (run requests).registry = Registry.run requests := by
  induction requests using List.reverseRecOn with
  | nil => exact ⟨.empty, rfl⟩
  | append_singleton requests request ih =>
    obtain ⟨coherent, registry⟩ := ih
    obtain ⟨later, same⟩ := coherent.perform request
    rw [run_append_singleton]
    refine ⟨later, same.trans ?_⟩
    simp [registry, Registry.run]

end DynamicSolver

end Argumentation
