import Argumentation.Proofs.Session.Batches
import Argumentation.Session.Solving

/-!
# Queries

A query asks the engine and may exclude what it found, but only under a selector of its own. So
whatever the engine answers and however the query ends, the session is settled as before and still
stands for the same program.
-/

namespace Argumentation.Session

open Argumentation.Sat (Literal Clause Engine Assignment)

variable {α : Type}

/-- What a query leaves as it was: all but the journal and the number of variables in use. -/
structure Keeps (session other : Session α) : Prop where
  flags : other.flags = session.flags
  derived : other.derived = session.derived
  selectors : other.selectors = session.selectors
  stale : other.stale = session.stale
  batches : other.batches = session.batches
  shown : other.shown = session.shown

theorem Keeps.refl (session : Session α) : session.Keeps session :=
  ⟨rfl, rfl, rfl, rfl, rfl, rfl⟩

theorem Keeps.trans {first second third : Session α} (early : first.Keeps second)
    (late : second.Keeps third) : first.Keeps third where
  flags := late.flags.trans early.flags
  derived := late.derived.trans early.derived
  selectors := late.selectors.trans early.selectors
  stale := late.stale.trans early.stale
  batches := late.batches.trans early.batches
  shown := late.shown.trans early.shown

theorem keeps_send (session : Session α) (clause : Clause) : session.Keeps (session.send clause) :=
  ⟨rfl, rfl, rfl, rfl, rfl, rfl⟩

theorem keeps_ask (session : Session α) (engine : Engine) (assumptions : List Literal) :
    session.Keeps (session.ask engine assumptions).2 :=
  ⟨rfl, rfl, rfl, rfl, rfl, rfl⟩

@[simp]
theorem sent_ask (session : Session α) (engine : Engine) (assumptions : List Literal) :
    (session.ask engine assumptions).2.sent = session.sent := by
  simp [ask, sent, Journal.clauses]

theorem keeps_collect (engine : Engine) (deadline : Deadline) (selector : Nat)
    (assumptions : List Literal) (calls found : Nat) (session : Session α) :
    session.Keeps (collect engine deadline selector assumptions calls found session).2 := by
  induction calls generalizing found session with
  | zero => exact .refl session
  | succ calls ih =>
    unfold collect
    split
    · exact .refl session
    · have asked := session.keeps_ask engine assumptions
      split <;> rename_i answer
      · have same := congrArg Prod.snd answer
        exact ((same ▸ asked).trans (keeps_send _ _)).trans (ih _ _)
      · exact congrArg Prod.snd answer ▸ asked
      · exact congrArg Prod.snd answer ▸ asked

theorem keeps_solve (session : Session α) (engine : Engine) (deadline : Deadline) :
    session.Keeps (session.solve engine deadline).2 := by
  have fresh : session.Keeps session.fresh.2 := ⟨rfl, rfl, rfl, rfl, rfl, rfl⟩
  have collected := keeps_collect engine deadline session.fresh.1
    (session.fresh.2.assumptions ++ [.pos session.fresh.1]) (session.callBound engine) 0
    session.fresh.2
  exact (fresh.trans collected).trans (keeps_send _ [.neg session.fresh.1])

variable [DecidableEq α]

theorem Keeps.flag? {session other : Session α} (keeps : session.Keeps other)
    (element : Element α) : other.flag? element = session.flag? element := by
  simp only [Session.flag?, keeps.flags]

theorem keeps_findModel (session : Session α) (engine : Engine) (atoms : List (Atom α)) :
    session.Keeps (session.findModel engine atoms).2 := by
  unfold findModel
  split
  · exact .refl session
  · rename_i literals _
    have asked := session.keeps_ask engine (session.assumptions ++ literals)
    split <;> rename_i answer <;> exact congrArg Prod.snd answer ▸ asked

/-- A change of the journal that sends nothing keeps the invariant. -/
theorem Settled.of_keeps {ledger : Ledger α} {session other : Session α}
    (settled : session.Settled ledger) (keeps : session.Keeps other)
    (variableCount : other.variableCount = session.variableCount)
    (sent : other.sent = session.sent) : other.Settled ledger := by
  refine settled.congr variableCount ?_ (fun element => ?_) keeps.derived sent keeps.selectors
    keeps.shown keeps.stale keeps.batches
  · simp only [flagVars, keeps.flags]
  · rw [keeps.flag?]

/-- A clause guarded by the selector of an enumeration keeps the invariant. -/
theorem Settled.send_idle {ledger : Ledger α} {session : Session α}
    (settled : session.Settled ledger) {selector : Nat} {clause : Clause}
    (role : ledger.role? selector = some .enumeration) (guard : .neg selector ∈ clause)
    (inUse : forall literal, literal ∈ clause -> (ledger.role? literal.var).isSome) :
    (session.send clause).Settled ledger where
  toGrounded := settled.toGrounded.send (.inr ⟨selector, guard, .inl role⟩) inUse
  stale := settled.stale
  flagged := settled.flagged
  declares := settled.declares

/-- A variable may be used to guard an enumeration. -/
theorem Settled.fresh {ledger : Ledger α} {session : Session α}
    (settled : session.Settled ledger) :
    session.fresh.2.Settled (ledger.push .enumeration) where
  toGrounded := by
    refine settled.toGrounded.enlarge (.push ledger rfl (by simp))
      (settled.toNumbered.fresh .enumeration) [] ?_
    exact ⟨fun _ _ => rfl, by simp [Session.fresh], by simp, fun _ waits => waits, rfl, rfl, rfl⟩
  stale := settled.stale
  flagged := settled.flagged
  declares := settled.declares

/-- The variables of visible memberships are in use. -/
theorem Grounded.isSome_role?_shown {ledger : Ledger α} {rules : List (Rule α)}
    {pending : List (Atom α)} {session : Session α}
    (grounded : session.Grounded ledger rules pending) {entry : α × Nat}
    (member : entry ∈ session.shown) : ledger.role? entry.2 = some (.atom (.inside entry.1)) :=
  grounded.toNumbered.role_of_varOf? (grounded.shown entry.1 entry.2 member)

theorem Settled.sendBlocking {ledger : Ledger α} {session : Session α}
    (settled : session.Settled ledger) {selector : Nat}
    (role : ledger.role? selector = some .enumeration) (model : Assignment) :
    (session.send (session.blockingClause selector model)).Settled ledger := by
  refine settled.send_idle role (by simp [blockingClause]) fun literal inside => ?_
  rcases List.mem_cons.mp inside with rfl | member
  · simp [Literal.neg, role]
  · obtain ⟨entry, listed, rfl⟩ := List.mem_map.mp member
    simp [settled.toGrounded.isSome_role?_shown listed]

/-- The calls of an enumeration keep the invariant, whatever the engine answers. -/
theorem Settled.collect {ledger : Ledger α} {session : Session α}
    (settled : session.Settled ledger) {selector : Nat}
    (role : ledger.role? selector = some .enumeration) (engine : Engine) (deadline : Deadline)
    (assumptions : List Literal) (calls found : Nat) :
    (collect engine deadline selector assumptions calls found session).2.Settled ledger := by
  induction calls generalizing found session with
  | zero => exact settled
  | succ calls ih =>
    have asked : (session.ask engine assumptions).2.Settled ledger :=
      settled.of_keeps (session.keeps_ask engine assumptions) rfl
        (session.sent_ask engine assumptions)
    unfold Session.collect
    split
    · exact settled
    · split <;> rename_i answer
      · have same := congrArg Prod.snd answer
        exact ih ((same ▸ asked).sendBlocking role _) _
      · exact congrArg Prod.snd answer ▸ asked
      · exact congrArg Prod.snd answer ▸ asked

theorem Settled.solve {ledger : Ledger α} {session : Session α}
    (settled : session.Settled ledger) (engine : Engine) (deadline : Deadline) :
    (session.solve engine deadline).2.Settled (ledger.push .enumeration) := by
  have role : (ledger.push .enumeration).role? (session.variableCount + 1) =
      some .enumeration := settled.toNumbered.role?_next .enumeration
  have collected := settled.fresh.collect role engine deadline
    (session.fresh.2.assumptions ++ [.pos session.fresh.1]) (session.callBound engine) 0
  refine collected.send_idle role (List.mem_singleton.mpr rfl) fun literal inside => ?_
  simp [List.mem_singleton.mp inside, Literal.neg, role]

theorem Settled.findModel {ledger : Ledger α} {session : Session α}
    (settled : session.Settled ledger) (engine : Engine) (atoms : List (Atom α)) :
    (session.findModel engine atoms).2.Settled ledger := by
  have asked : forall assumptions, (session.ask engine assumptions).2.Settled ledger :=
    fun assumptions => settled.of_keeps (session.keeps_ask engine assumptions) rfl
      (session.sent_ask engine assumptions)
  unfold Session.findModel
  split
  · exact settled
  · split <;> rename_i answer <;> exact congrArg Prod.snd answer ▸ asked _

end Argumentation.Session
