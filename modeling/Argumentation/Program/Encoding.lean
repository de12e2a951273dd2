import Argumentation.Error
import Argumentation.Program.Rule

/-!
# The admissibility program

The rules that one argument or one attack brings into the program whose models are the admissible
sets. An argument may be taken in or left out when it is active; an attack keeps its two ends from
being in together, defeats its target when its source is in, and leaves its target undefended as
long as its source is not defeated.
-/

namespace Argumentation.Encoding

variable {α : Type} [Label α]

/-- Refuses a label that rules could not be written with. -/
def validate (label : α) : Except (Error α) Unit :=
  if Label.isValid label then .ok () else .error (.invalidLabel label)

/-- The rules of an argument. -/
def argumentRules (label : α) : List (Rule α) :=
  [.external (.argument label),
    .derive (.inside label) [.fails (.outside label), .holds (.argument label)],
    .derive (.outside label) [.fails (.inside label), .holds (.argument label)],
    .declare (.defeated label),
    .declare (.undefended label),
    .display (.inside label)]

/-- The rules of an attack. -/
def attackRules (attacker attacked : α) : List (Rule α) :=
  [.external (.attack attacker attacked),
    .constraint [.holds (.inside attacker), .holds (.inside attacked),
      .holds (.attack attacker attacked)],
    .derive (.defeated attacked) [.holds (.inside attacker), .holds (.attack attacker attacked)],
    .derive (.undefended attacked) [.holds (.attack attacker attacked),
      .fails (.defeated attacker)],
    .constraint [.holds (.inside attacked), .holds (.undefended attacked)]]

/-- The batch of an argument with a valid label. -/
def argumentBatch (label : α) : Except (Error α) (Batch α) := do
  validate label
  .ok ⟨.argument label, argumentRules label⟩

/-- The batch of an attack between valid labels; the attacker is checked first. -/
def attackBatch (attacker attacked : α) : Except (Error α) (Batch α) := do
  validate attacker
  validate attacked
  .ok ⟨.attack attacker attacked, attackRules attacker attacked⟩

/-- The batch of an element. -/
def batch : Element α -> Except (Error α) (Batch α)
  | .argument label => argumentBatch label
  | .attack attacker attacked => attackBatch attacker attacked

end Argumentation.Encoding
