import Argumentation.Framework.Arguments

/-!
# Argumentation frameworks

A framework is a set of arguments with attacks between them. Both only grow and keep their
insertion order. The attacks are also kept as a set, to tell whether one is there, and each argument
has the positions of the attacks that leave it and of those that reach it, so that the attacks
around an argument are found without a search.
-/

namespace Argumentation

/-- A framework. Attacks are pairs of identifiers, attacker first. -/
structure Framework (α : Type) where
  arguments : ArgumentSet α := {}
  /-- The attacks, in insertion order. -/
  attacks : List (Nat × Nat) := []
  /-- The attacks, as a set. -/
  attackSet : Table (Nat × Nat) Unit := {}
  /-- For each argument, the positions of the attacks that leave it. -/
  outgoing : List (List Nat) := []
  /-- For each argument, the positions of the attacks that reach it. -/
  incoming : List (List Nat) := []

namespace Framework

variable {α : Type} [DecidableEq α]

/-- The framework of an argument set, without attacks. -/
def ofArguments (arguments : ArgumentSet α) : Framework α :=
  { arguments
    outgoing := List.replicate arguments.size []
    incoming := List.replicate arguments.size [] }

/-- Adds an argument. A refused label leaves nothing behind. -/
def addArgument (framework : Framework α) (label : α) : Except (Error α) (Framework α) := do
  let arguments ← framework.arguments.insert label
  .ok { framework with
    arguments
    outgoing := framework.outgoing ++ [[]]
    incoming := framework.incoming ++ [[]] }

/-- Whether two arguments, given by their identifiers, are joined by an attack. -/
def joins (framework : Framework α) (attack : Nat × Nat) : Bool :=
  (framework.attackSet.get? attack).isSome

/-- Adds an attack between two known arguments; the attacker is looked up first. -/
def addAttack (framework : Framework α) (attacker attacked : α) :
    Except (Error α) (Framework α) := do
  let source ← framework.arguments.find attacker
  let target ← framework.arguments.find attacked
  if framework.joins (source.id, target.id) then
    .error (.duplicateAttack attacker attacked)
  else
    let position := framework.attacks.length
    .ok { framework with
      attacks := framework.attacks ++ [(source.id, target.id)]
      attackSet := framework.attackSet.insert (source.id, target.id) ()
      outgoing := framework.outgoing.modify source.id (· ++ [position])
      incoming := framework.incoming.modify target.id (· ++ [position]) }

/-- Whether the attack is in the framework; unknown labels have no attacks. -/
def hasAttack (framework : Framework α) (attacker attacked : α) : Bool :=
  match framework.arguments.find attacker, framework.arguments.find attacked with
  | .ok source, .ok target => framework.joins (source.id, target.id)
  | _, _ => false

/-- The labels of an attack, attacker first. -/
def attackLabels? (framework : Framework α) (attack : Nat × Nat) : Option (α × α) := do
  let attacker ← framework.arguments.labels[attack.1]?
  let attacked ← framework.arguments.labels[attack.2]?
  some (attacker, attacked)

/-- The attacks as pairs of labels, in insertion order. -/
def attackList (framework : Framework α) : List (α × α) :=
  framework.attacks.filterMap framework.attackLabels?

/-- The attacks at the given positions. -/
def attacksAt (framework : Framework α) (positions : List Nat) : List (α × α) :=
  positions.filterMap fun position => framework.attacks[position]? >>= framework.attackLabels?

/-- The attacks that leave an argument, in insertion order. -/
def attacksFrom (framework : Framework α) (argument : Argument α) : List (α × α) :=
  framework.attacksAt (framework.outgoing[argument.id]?.getD [])

/-- The attacks that reach an argument, in insertion order. -/
def attacksTo (framework : Framework α) (argument : Argument α) : List (α × α) :=
  framework.attacksAt (framework.incoming[argument.id]?.getD [])

/-- The number of arguments. -/
def argumentCount (framework : Framework α) : Nat :=
  framework.arguments.size

/-- The number of attacks. -/
def attackCount (framework : Framework α) : Nat :=
  framework.attacks.length

/-- The framework with these arguments and these attacks, in this order. -/
def ofLists (labels : List α) (attacks : List (α × α)) : Except (Error α) (Framework α) := do
  let arguments ← ArgumentSet.ofLabels labels
  attacks.foldlM (fun framework attack => framework.addAttack attack.1 attack.2)
    (ofArguments arguments)

end Framework

end Argumentation
