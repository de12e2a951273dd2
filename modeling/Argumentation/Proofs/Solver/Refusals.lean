import Argumentation.Proofs.Solver.Runs

/-!
# Refused patches

Which patches a solver refuses, and why. The causes are read off the labels, the attacks and the
active elements; there are no others, as the session takes in whatever the framework did. A refused
patch leaves the solver as it was.
-/

namespace Argumentation

variable {α : Type} [DecidableEq α]

namespace Registry

/-- The refusal of the first of some labels that was never added. -/
def unknown? (registry : Registry α) (labels : List α) : Option (Error α) :=
  (labels.find? fun label => label ∉ registry.labels).map .unknownArgument

/-- The refusal of the first of some arguments that is not active. -/
def inactive? (registry : Registry α) (labels : List α) : Option (Error α) :=
  (labels.find? fun label => !registry.active (.argument label)).map .inactiveArgument

/-- The refusal of a patch, if there is one. -/
def refusal? [Label α] (registry : Registry α) : Patch α -> Option (Error α)
  | .enable (.argument label) =>
    if label ∈ registry.labels ∨ Label.isValid label = true then none
    else some (.invalidLabel label)
  | .disable (.argument label) => registry.unknown? [label]
  | .enable (.attack attacker attacked) =>
    registry.unknown? [attacker, attacked] <|> registry.inactive? [attacker, attacked]
  | .disable (.attack attacker attacked) =>
    registry.unknown? [attacker, attacked] <|>
      if registry.Knows (.attack attacker attacked) then none
      else some (.unknownElement (.attack attacker attacked))

section Checks

variable {β : Type}

theorem checkKnown_bind (registry : Registry α) (label : α)
    (next : Unit -> Except (Error α) β) :
    (registry.checkKnown label >>= next) =
      if label ∈ registry.labels then next () else .error (.unknownArgument label) := by
  unfold checkKnown
  split <;> rfl

omit [DecidableEq α] in
theorem checkActive_bind (registry : Registry α) (label : α)
    (next : Unit -> Except (Error α) β) :
    (registry.checkActive label >>= next) =
      if registry.active (.argument label) then next ()
      else .error (.inactiveArgument label) := by
  unfold checkActive
  split <;> rfl

theorem checkAttack_bind (registry : Registry α) (attacker attacked : α)
    (next : Unit -> Except (Error α) β) :
    (registry.checkAttack attacker attacked >>= next) =
      if (attacker, attacked) ∈ registry.attacks then next ()
      else .error (.unknownElement (.attack attacker attacked)) := by
  unfold checkAttack
  split <;> rfl

/-- Looking up both ends of an attack is refused for the first unknown one. -/
theorem checkKnown_ends (registry : Registry α) (attacker attacked : α)
    (next : Except (Error α) β) :
    (do registry.checkKnown attacker; registry.checkKnown attacked; next) =
      match registry.unknown? [attacker, attacked] with
      | some error => .error error
      | none => next := by
  by_cases first : attacker ∈ registry.labels
  · by_cases second : attacked ∈ registry.labels
    · simp [checkKnown_bind, unknown?, first, second]
    · simp [checkKnown_bind, unknown?, first, second]
  · simp [checkKnown_bind, unknown?, first]

omit [DecidableEq α] in
/-- Asking for both ends of an attack to be active is refused for the first that is not. -/
theorem checkActive_ends (registry : Registry α) (attacker attacked : α)
    (next : Except (Error α) β) :
    (do registry.checkActive attacker; registry.checkActive attacked; next) =
      match registry.inactive? [attacker, attacked] with
      | some error => .error error
      | none => next := by
  cases first : registry.active (.argument attacker) with
  | true =>
    cases second : registry.active (.argument attacked) with
    | true => simp [checkActive_bind, inactive?, first, second]
    | false => simp [checkActive_bind, inactive?, first, second]
  | false => simp [checkActive_bind, inactive?, first]

end Checks

variable [Label α]

/-- A patch is refused for this cause and no other. -/
theorem applyPatch_eq_error {registry : Registry α} {patch : Patch α} {error : Error α} :
    registry.applyPatch patch = .error error ↔ registry.refusal? patch = some error := by
  cases patch with
  | enable element =>
    cases element with
    | argument label =>
      by_cases known : label ∈ registry.labels
      · simp [applyPatch, refusal?, known, enableArgument, checkKnown_bind]
      · by_cases valid : Label.isValid label = true
        · simp [applyPatch, refusal?, known, newArgument, valid]
        · simp [applyPatch, refusal?, known, newArgument, valid]
    | attack attacker attacked =>
      -- An attack that is not known yet cannot be a duplicate.
      by_cases known : (attacker, attacked) ∈ registry.attacks
      · rw [applyPatch, if_pos known, enableAttack, checkKnown_ends, checkAttack_bind,
          if_pos known, checkActive_ends, refusal?]
        cases registry.unknown? [attacker, attacked] <;>
          cases registry.inactive? [attacker, attacked] <;> simp
      · rw [applyPatch, if_neg known, newAttack, checkKnown_ends, if_neg known, refusal?]
        dsimp only
        rw [checkActive_ends]
        cases registry.unknown? [attacker, attacked] <;>
          cases registry.inactive? [attacker, attacked] <;> simp
  | disable element =>
    cases element with
    | argument label =>
      by_cases known : label ∈ registry.labels
      · simp [applyPatch, refusal?, unknown?, known, disableArgument, checkKnown_bind]
      · simp [applyPatch, refusal?, unknown?, known, disableArgument, checkKnown_bind]
    | attack attacker attacked =>
      rw [applyPatch, disableAttack, checkKnown_ends, checkAttack_bind, refusal?]
      by_cases known : (attacker, attacked) ∈ registry.attacks <;>
        cases registry.unknown? [attacker, attacked] <;> simp [Knows, known]

end Registry

namespace DynamicSolver

variable [Label α]

/-- After any run, a patch is refused exactly for the causes that the account of the run gives, and
then the whole solver is as it was; every other patch is applied. -/
theorem applyPatch_run (requests : List (Request α)) (patch : Patch α) :
    let solver := run requests
    let registry := Registry.run requests
    solver.registry = registry ∧
      match registry.refusal? patch with
      | some error => solver.applyPatch patch = (.error error, solver)
      | none => (solver.applyPatch patch).1 = .ok () := by
  intro solver registry
  obtain ⟨coherent, account⟩ := coherent_run requests
  have same : solver.registry = registry := account
  have follows : solver.Follows (solver.applyPatch patch) (solver.registry.applyPatch patch) :=
    coherent.applyPatch patch
  rw [same] at follows
  refine ⟨same, ?_⟩
  cases refusal : registry.refusal? patch with
  | some error =>
    rw [Registry.applyPatch_eq_error.mpr refusal] at follows
    exact follows
  | none =>
    cases expected : registry.applyPatch patch with
    | ok later =>
      rw [expected] at follows
      exact follows.1
    | error error =>
      rw [Registry.applyPatch_eq_error, refusal] at expected
      cases expected

end DynamicSolver

end Argumentation
