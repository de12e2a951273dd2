import Argumentation.Session.Grounding

/-!
# Applying batches

A batch is checked before anything is sent to the engine, so a refused batch leaves the session as
it was. Applying the batch of an element again does nothing.
-/

namespace Argumentation.Session

variable {α : Type} [DecidableEq α]

/-- The first argument of an attack that has no batch. -/
def missingEndpoint? (session : Session α) : Element α -> Option (Element α)
  | .argument _ => none
  | .attack attacker attacked =>
    [Element.argument attacker, .argument attacked].find? fun element =>
      (session.batchId? element).isNone

/-- The first body literal of a rule that mentions an undeclared structural atom. -/
def unknownExternal? (session : Session α) (flagAtom : Atom α) (rule : Rule α) :
    Option (Atom α) :=
  (rule.body.map BodyLiteral.atom).find? fun atom =>
    atom.isStructural && atom ≠ flagAtom && (session.varOf? atom).isNone

/-- What is wrong with a rule of a batch, the head before the body. -/
def ruleFault? (session : Session α) (flagAtom : Atom α) (rule : Rule α) :
    Option (BatchFault α) :=
  let headFault : Option (BatchFault α) := match rule with
    | .external atom => if atom = flagAtom then none else some (.unexpectedExternal atom)
    | .derive head _ | .declare head =>
      if head.isStructural then some (.derivesExternal head) else none
    | .display atom => if atom.isShowable then none else some (.notShowable atom)
    | .constraint _ => none
  headFault <|> (session.unknownExternal? flagAtom rule).map .unknownExternal

/-- What is wrong with a batch: the fault of its first faulty rule, or else the lack of a
declaration of its structural atom. -/
def batchFault? (session : Session α) (batch : Batch α) : Option (BatchFault α) :=
  let flagAtom := batch.element.flagAtom
  batch.rules.findSome? (session.ruleFault? flagAtom) <|>
    if batch.rules.contains (.external flagAtom) then none else some (.missingExternal flagAtom)

/-- Whether a batch for a new element may be applied. -/
def check (session : Session α) (batch : Batch α) : Except (Error α) Unit :=
  match session.missingEndpoint? batch.element with
  | some endpoint => .error (.unknownElement endpoint.flagAtom)
  | none =>
    match session.batchFault? batch with
    | some fault => .error (.malformedBatch batch.element fault)
    | none => .ok ()

/-- The written form of a batch identifier. -/
def batchIdText (id : Nat) : String :=
  "#" ++ toString id

variable [Label α]

/-- Merges a batch into the session and gives its identifier. -/
def apply (session : Session α) (batch : Batch α) : Except (Error α) Nat × Session α :=
  match session.batchId? batch.element with
  | some id =>
    if session.batches[id]? = some batch then
      (.ok id, session.note .debug
        ("batch for " ++ batch.element.text ++ " is already applied as " ++ batchIdText id))
    else (.error (.batchConflict batch.element), session)
  | none =>
    match session.check batch with
    | .error error => (.error error, session)
    | .ok _ =>
      let id := session.batchCount
      let noted := (session.note .debug
          ("applying batch " ++ batchIdText id ++ " for " ++ batch.element.text)).note .trace
        ("batch " ++ batchIdText id ++ " is " ++ batch.text)
      let grounded := noted.ground batch
      (.ok id, { grounded with batches := grounded.batches ++ [batch] })

end Argumentation.Session
