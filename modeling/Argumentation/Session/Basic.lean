import Argumentation.Error
import Argumentation.Extension
import Argumentation.Journal
import Argumentation.Program.Rule
import Argumentation.Session.Roster

/-!
# Sessions

A session accumulates batches of rules and keeps their meaning in the clauses of one engine. It
numbers fresh variables from one. Structural atoms have the variable of a flag, whose value is
assumed at each call. Every other atom it has seen is derived: it is bound to the disjunction of
the bodies of its rules. As later batches may bring further bodies, the clause that says so is
guarded by a selector, which is assumed as long as no newer clause replaces this one.
-/

namespace Argumentation

/-- The value of a structural atom, set from outside. -/
structure Flag (α : Type) where
  element : Element α
  var : Nat
  value : Bool
  deriving DecidableEq

/-- What a session knows of a derived atom. -/
structure Derived (α : Type) where
  atom : Atom α
  var : Nat
  /-- The variables of the bodies of its rules, in order of arrival. -/
  bodies : List Nat := []
  /-- The selector that guards its current completion clause. -/
  selector : Option Nat := none
  deriving DecidableEq

/-- A solving context that accumulates batches. -/
structure Session (α : Type) where
  /-- The number of variables in use. -/
  variableCount : Nat := 0
  /-- The declared flags, newest first; the newest of an element is the one that counts. -/
  flags : List (Flag α) := []
  /-- The derived atoms, in the order in which the session met them. -/
  derived : List (Derived α) := []
  /-- The current selectors. -/
  selectors : Roster := {}
  /-- The derived atoms whose completion clause does not list all their bodies yet. -/
  stale : List (Atom α) := []
  /-- The applied batches; the position of a batch is its identifier. -/
  batches : List (Batch α) := []
  /-- The visible arguments with the variables of their membership, in order. -/
  shown : List (α × Nat) := []
  journal : Journal := []

namespace Session

variable {α : Type} [DecidableEq α]

/-- A session without batches. -/
def empty : Session α := {}

/-- Leaves a note. -/
def note (session : Session α) (level : Level) (text : String) : Session α :=
  { session with journal := .note ⟨level, text⟩ :: session.journal }

/-- Sends a clause to the engine. -/
def send (session : Session α) (clause : Sat.Clause) : Session α :=
  { session with journal := .clause clause :: session.journal }

/-- The next unused variable, and the session in which it is used. -/
def fresh (session : Session α) : Nat × Session α :=
  (session.variableCount + 1, { session with variableCount := session.variableCount + 1 })

/-- The current flag of an element. -/
def flag? (session : Session α) (element : Element α) : Option (Flag α) :=
  session.flags.find? fun flag => flag.element = element

/-- What the session knows of an atom as a derived one. -/
def derived? (session : Session α) (atom : Atom α) : Option (Derived α) :=
  session.derived.find? fun entry => entry.atom = atom

/-- The variable of an atom that the session has seen. -/
def varOf? (session : Session α) (atom : Atom α) : Option Nat :=
  match session.flags.find? fun flag => flag.element.flagAtom = atom with
  | some flag => some flag.var
  | none => (session.derived? atom).map Derived.var

/-- The identifier of the batch applied for an element. -/
def batchId? (session : Session α) (element : Element α) : Option Nat :=
  session.batches.findIdx? fun batch => batch.element = element

/-- The number of applied batches. -/
def batchCount (session : Session α) : Nat :=
  session.batches.length

/-- The value of the flag of an element. -/
def flag (session : Session α) (element : Element α) : Except (Error α) Bool :=
  match session.flag? element with
  | some flag => .ok flag.value
  | none => .error (.unknownElement element.flagAtom)

/-- Replaces the value of the newest flag of an element. -/
def assignFlag (element : Element α) (value : Bool) : List (Flag α) -> List (Flag α)
  | [] => []
  | flag :: rest =>
    if flag.element = element then { flag with value } :: rest
    else flag :: assignFlag element value rest

variable [Label α]

/-- The note left when a flag changes. -/
def flagNote (element : Element α) (value : Bool) : String :=
  "setting " ++ element.text ++ " to " ++ toString value

/-- Sets the flag of an element. Only a change is noted. -/
def setFlag (session : Session α) (element : Element α) (value : Bool) :
    Except (Error α) Unit × Session α :=
  match session.flag? element with
  | none => (.error (.unknownElement element.flagAtom), session)
  | some flag =>
    let noted :=
      if flag.value = value then session else session.note .debug (flagNote element value)
    (.ok (), { noted with flags := assignFlag element value session.flags })

/-- Sets the flags of several elements in order, up to the first refusal. -/
def setFlags (session : Session α) (value : Bool) : List (Element α) ->
    Except (Error α) Unit × Session α
  | [] => (.ok (), session)
  | element :: rest =>
    match session.setFlag element value with
    | (.ok _, session) => setFlags session value rest
    | (.error error, session) => (.error error, session)

end Session

end Argumentation
