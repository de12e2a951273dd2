import Argumentation.Error
import Argumentation.Label
import Argumentation.Patch

/-!
# Registries

The plain account of a changing framework: the labels and the attacks in the order in which they
were added, and which elements are active. It has neither identifiers nor clauses. A solver does to
its framework and its flags what is done here.
-/

namespace Argumentation

/-- The elements ever added, and which of them are active. -/
structure Registry (α : Type) where
  labels : List α := []
  attacks : List (α × α) := []
  active : Element α -> Bool := fun _ => false

namespace Registry

variable {α : Type} [DecidableEq α]

/-- Whether an element was added. -/
def Knows (registry : Registry α) : Element α -> Prop
  | .argument label => label ∈ registry.labels
  | .attack attacker attacked => (attacker, attacked) ∈ registry.attacks

instance (registry : Registry α) : DecidablePred registry.Knows
  | .argument label => inferInstanceAs (Decidable (label ∈ registry.labels))
  | .attack attacker attacked =>
    inferInstanceAs (Decidable ((attacker, attacked) ∈ registry.attacks))

/-- An element becomes active. -/
def raise (registry : Registry α) (element : Element α) : Registry α :=
  { registry with active := fun other => other = element || registry.active other }

/-- An element becomes inactive. -/
def lower (registry : Registry α) (element : Element α) : Registry α :=
  { registry with active := fun other => other ≠ element && registry.active other }

/-- The active arguments, in the order in which they were added. -/
def activeLabels (registry : Registry α) : List α :=
  registry.labels.filter fun label => registry.active (.argument label)

/-- The active attacks, in the order in which they were added. -/
def activeAttacks (registry : Registry α) : List (α × α) :=
  registry.attacks.filter fun attack => registry.active (.attack attack.1 attack.2)

/-- Whether an element is an argument or an attack around it. -/
def touches (label : α) : Element α -> Bool
  | .argument other => other = label
  | .attack attacker attacked => attacker = label || attacked = label

/-- Refuses an argument that was never added. -/
def checkKnown (registry : Registry α) (label : α) : Except (Error α) Unit :=
  if label ∈ registry.labels then .ok () else .error (.unknownArgument label)

/-- Refuses an argument that is not active. -/
def checkActive (registry : Registry α) (label : α) : Except (Error α) Unit :=
  if registry.active (.argument label) then .ok () else .error (.inactiveArgument label)

/-- Refuses an attack that was never added. -/
def checkAttack (registry : Registry α) (attacker attacked : α) : Except (Error α) Unit :=
  if (attacker, attacked) ∈ registry.attacks then .ok ()
  else .error (.unknownElement (.attack attacker attacked))

/-- A known argument becomes active; the attacks around it stay as they are. -/
def enableArgument (registry : Registry α) (label : α) : Except (Error α) (Registry α) := do
  registry.checkKnown label
  .ok (registry.raise (.argument label))

/-- An argument becomes inactive together with the attacks around it. -/
def disableArgument (registry : Registry α) (label : α) : Except (Error α) (Registry α) := do
  registry.checkKnown label
  .ok { registry with active := fun other => !touches label other && registry.active other }

/-- Adds an attack between active arguments. -/
def newAttack (registry : Registry α) (attacker attacked : α) :
    Except (Error α) (Registry α) := do
  registry.checkKnown attacker
  registry.checkKnown attacked
  if (attacker, attacked) ∈ registry.attacks then .error (.duplicateAttack attacker attacked)
  registry.checkActive attacker
  registry.checkActive attacked
  let added := { registry with attacks := registry.attacks ++ [(attacker, attacked)] }
  .ok (added.raise (.attack attacker attacked))

/-- A known attack between active arguments becomes active. -/
def enableAttack (registry : Registry α) (attacker attacked : α) :
    Except (Error α) (Registry α) := do
  registry.checkKnown attacker
  registry.checkKnown attacked
  registry.checkAttack attacker attacked
  registry.checkActive attacker
  registry.checkActive attacked
  .ok (registry.raise (.attack attacker attacked))

/-- A known attack becomes inactive. -/
def disableAttack (registry : Registry α) (attacker attacked : α) :
    Except (Error α) (Registry α) := do
  registry.checkKnown attacker
  registry.checkKnown attacked
  registry.checkAttack attacker attacked
  .ok (registry.lower (.attack attacker attacked))

variable [Label α]

/-- Adds an argument. -/
def newArgument (registry : Registry α) (label : α) : Except (Error α) (Registry α) :=
  if Label.isValid label then
    if label ∈ registry.labels then .error (.duplicateArgument label)
    else
      let added := { registry with labels := registry.labels ++ [label] }
      .ok (added.raise (.argument label))
  else .error (.invalidLabel label)

/-- A change of one element; what is enabled for the first time is added. -/
def applyPatch (registry : Registry α) : Patch α -> Except (Error α) (Registry α)
  | .enable (.argument label) =>
    if label ∈ registry.labels then registry.enableArgument label
    else registry.newArgument label
  | .disable (.argument label) => registry.disableArgument label
  | .enable (.attack attacker attacked) =>
    if (attacker, attacked) ∈ registry.attacks then registry.enableAttack attacker attacked
    else registry.newAttack attacker attacked
  | .disable (.attack attacker attacked) => registry.disableAttack attacker attacked

end Registry

end Argumentation
