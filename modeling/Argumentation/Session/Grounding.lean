import Argumentation.Session.Basic

/-!
# Grounding

How the rules of an accepted batch become clauses. A derivation gets a variable that is equivalent
to its body and implies its head; a constraint becomes one clause. Once all the rules are in, each
atom that was met for the first time or got a new body receives a completion clause under a fresh
selector: when the selector is true, the atom implies one of its bodies.
-/

namespace Argumentation.Session

variable {α : Type} [DecidableEq α]

open Argumentation.Sat (Literal)

/-- Declares a flag of an element under a fresh variable. It starts false. -/
def declareFlag (session : Session α) (element : Element α) : Session α :=
  let (var, session) := session.fresh
  { session with flags := ⟨element, var, false⟩ :: session.flags }

/-- The variable of an atom. An atom that the session has not seen becomes a derived one. -/
def atomVariable (session : Session α) (atom : Atom α) : Nat × Session α :=
  match session.varOf? atom with
  | some var => (var, session)
  | none =>
    let (var, session) := session.fresh
    (var,
      { session with
        derived := session.derived ++ [{ atom, var }]
        stale := session.stale ++ [atom] })

/-- The literal of a body literal. -/
def bodyLiteral (session : Session α) : BodyLiteral α -> Literal × Session α
  | .holds atom =>
    let (var, session) := session.atomVariable atom
    (.pos var, session)
  | .fails atom =>
    let (var, session) := session.atomVariable atom
    (.neg var, session)

/-- The literals of a body, in order. -/
def bodyLiterals (session : Session α) : List (BodyLiteral α) -> List Literal × Session α
  | [] => ([], session)
  | literal :: rest =>
    let (first, session) := session.bodyLiteral literal
    let (others, session) := bodyLiterals session rest
    (first :: others, session)

/-- Sends several clauses in order. -/
def sendAll (session : Session α) (clauses : List Sat.Clause) : Session α :=
  clauses.foldl send session

/-- The clauses that make a variable equivalent to the conjunction of some literals. -/
def conjunctionClauses (var : Nat) (literals : List Literal) : List Sat.Clause :=
  literals.map (fun literal => [.neg var, literal])
    ++ [literals.map Literal.negate ++ [.pos var]]

/-- These clauses say that the variable is true exactly when all the literals are. -/
theorem conjunctionClauses_hold_iff (valuation : Nat -> Bool) (var : Nat)
    (literals : List Literal) :
    (forall clause, clause ∈ conjunctionClauses var literals -> clause.holds valuation) ↔
      valuation var = literals.all (Literal.holds valuation) := by
  have body : (forall clause, clause ∈ literals.map (fun literal => [Literal.neg var, literal]) ->
      Sat.Clause.holds valuation clause) ↔
        (valuation var -> literals.all (Literal.holds valuation)) := by
    cases value : valuation var <;> simp [Sat.Clause.holds, Literal.holds, Literal.neg, value]
  have whole : Sat.Clause.holds valuation (literals.map Literal.negate ++ [.pos var]) ↔
      (literals.all (Literal.holds valuation) -> valuation var) := by
    rw [Sat.Clause.holds_append, Sat.Clause.holds_map_negate]
    cases literals.all (Literal.holds valuation) <;>
      simp [Sat.Clause.holds, Literal.holds, Literal.pos]
  simp only [conjunctionClauses, List.forall_mem_append, List.forall_mem_singleton]
  rw [body, whole]
  cases valuation var <;> cases literals.all (Literal.holds valuation) <;> simp

/-- A fresh variable equivalent to a body. -/
def bodyVariable (session : Session α) (body : List (BodyLiteral α)) : Nat × Session α :=
  let (literals, session) := session.bodyLiterals body
  let (var, session) := session.fresh
  (var, session.sendAll (conjunctionClauses var literals))

/-- Records one more body of a derived atom, whose completion clause then has to be renewed. -/
def addBody (session : Session α) (atom : Atom α) (body : Nat) : Session α :=
  { session with
    derived := session.derived.map fun entry =>
      if entry.atom = atom then { entry with bodies := entry.bodies ++ [body] } else entry
    stale := if atom ∈ session.stale then session.stale else session.stale ++ [atom] }

/-- Makes an argument visible, unless its membership already is. -/
def display (session : Session α) (atom : Atom α) (var : Nat) : Session α :=
  match atom with
  | .inside label =>
    if session.shown.any fun entry => entry.2 == var then session
    else { session with shown := session.shown ++ [(label, var)] }
  | _ => session

/-- Grounds one rule. External declarations are grounded before all the other rules. -/
def groundRule (session : Session α) : Rule α -> Session α
  | .external _ => session
  | .declare atom => (session.atomVariable atom).2
  | .display atom =>
    let (var, session) := session.atomVariable atom
    session.display atom var
  | .derive head body =>
    let (var, session) := session.atomVariable head
    let (support, session) := session.bodyVariable body
    (session.send [.neg support, .pos var]).addBody head support
  | .constraint body =>
    let (literals, session) := session.bodyLiterals body
    session.send (literals.map Literal.negate)

/-- The clause that makes an atom imply one of its bodies when a selector is true. -/
def completionClause (selector : Nat) (entry : Derived α) : Sat.Clause :=
  .neg selector :: .neg entry.var :: entry.bodies.map Literal.pos

/-- Takes a selector out of use for good. -/
def retire (session : Session α) (selector : Nat) : Session α :=
  let session := session.send [.neg selector]
  { session with selectors := session.selectors.remove selector }

/-- Records the current selector of a derived atom. -/
def assignSelector (session : Session α) (atom : Atom α) (selector : Nat) : Session α :=
  { session with
    derived := session.derived.map fun entry =>
      if entry.atom = atom then { entry with selector := some selector } else entry
    selectors := session.selectors.push selector }

/-- Replaces the completion clause of a derived atom by one that lists all its bodies. -/
def renewCompletion (session : Session α) (atom : Atom α) : Session α :=
  match session.derived? atom with
  | none => session
  | some entry =>
    let (selector, session) := session.fresh
    let session := match entry.selector with
      | some old => session.retire old
      | none => session
    (session.send (completionClause selector entry)).assignSelector atom selector

/-- Grounds the rules of a batch: declarations of flags, then the other rules, then the completion
clauses of the atoms that need one. -/
def ground (session : Session α) (batch : Batch α) : Session α :=
  let declared := (batch.rules.filter fun rule => rule matches .external _).foldl
    (fun session _ => session.declareFlag batch.element) session
  let grounded := batch.rules.foldl groundRule declared
  { grounded.stale.foldl renewCompletion grounded with stale := [] }

end Argumentation.Session
