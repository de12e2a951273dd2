import Argumentation.Proofs.Session.Flags
import Argumentation.Proofs.Session.Queries

/-!
# Runs of a session

A run is any sequence of requests to a new session, each accepted or refused. The engines and the
deadlines of past queries are arbitrary, so a query may have been answered wrongly or been cut off:
the invariant holds after every run all the same.
-/

namespace Argumentation.Session

open Argumentation.Sat (Engine)

/-- What a session may be asked to do. -/
inductive Request (α : Type) where
  | apply (batch : Batch α)
  | setFlag (element : Element α) (value : Bool)
  | solve (engine : Engine) (deadline : Deadline)
  | findModel (engine : Engine) (atoms : List (Atom α))

/-- Whether a request may change more of a session than its journal and its variables in use. -/
def Request.operates {α : Type} : Request α -> Bool
  | .apply _ | .setFlag _ _ => true
  | .solve _ _ | .findModel _ _ => false

variable {α : Type} [DecidableEq α] [Label α]

/-- The session after a request. -/
def perform (session : Session α) : Request α -> Session α
  | .apply batch => (session.apply batch).2
  | .setFlag element value => (session.setFlag element value).2
  | .solve engine deadline => (session.solve engine deadline).2
  | .findModel engine atoms => (session.findModel engine atoms).2

/-- A query leaves a session as it was. -/
theorem keeps_perform {request : Request α} (asks : request.operates = false)
    (session : Session α) : session.Keeps (session.perform request) := by
  cases request with
  | apply batch | setFlag element value => cases asks
  | solve engine deadline => exact session.keeps_solve engine deadline
  | findModel engine atoms => exact session.keeps_findModel engine atoms

/-- The session after a sequence of requests. -/
def run (requests : List (Request α)) : Session α :=
  requests.foldl perform empty

@[simp]
theorem run_append_singleton (requests : List (Request α)) (request : Request α) :
    run (requests ++ [request]) = (run requests).perform request := by
  simp [run]

/-- Whatever is requested, the session stays settled. -/
theorem Settled.perform {ledger : Ledger α} {session : Session α}
    (settled : session.Settled ledger) (request : Request α) :
    ∃ later, (session.perform request).Settled later := by
  cases request with
  | apply batch => exact settled.apply batch
  | setFlag element value => exact ⟨ledger, settled.setFlag element value⟩
  | solve engine deadline => exact ⟨_, settled.solve engine deadline⟩
  | findModel engine atoms => exact ⟨ledger, settled.findModel engine atoms⟩

/-- A session is settled after every run. -/
theorem settled_run (requests : List (Request α)) : ∃ ledger, (run requests).Settled ledger := by
  induction requests using List.reverseRecOn with
  | nil => exact ⟨{}, .empty⟩
  | append_singleton requests request ih =>
    obtain ⟨ledger, settled⟩ := ih
    rw [run_append_singleton]
    exact settled.perform request

/-- An answer with an identifier says that the batch is among those of the session. -/
theorem mem_batches_apply {session : Session α} {batch other : Batch α} :
    other ∈ (session.apply batch).2.batches ↔
      other ∈ session.batches ∨ other = batch ∧ (session.apply batch).1.toBool = true := by
  by_cases accepted : session.batchId? batch.element = none ∧ session.Accepts batch
  · obtain ⟨new, accepts⟩ := accepted
    simp [apply_of_accepts new accepts, Except.toBool]
  · rw [(frame_apply accepted).2]
    refine ⟨.inl, ?_⟩
    rintro (old | ⟨rfl, answered⟩)
    · exact old
    · unfold apply at answered
      split at answered
      · split at answered
        · rename_i same
          exact List.mem_of_getElem? same
        · cases answered
      · rename_i new
        split at answered
        · cases answered
        · rename_i passed
          exact absurd ⟨new, check_eq_ok.mp passed⟩ accepted

theorem mem_batches_perform {session : Session α} {request : Request α} {batch : Batch α} :
    batch ∈ (session.perform request).batches ↔
      batch ∈ session.batches ∨
        request = .apply batch ∧ (session.apply batch).1.toBool = true := by
  cases request with
  | apply other =>
    rw [perform, mem_batches_apply]
    refine or_congr_right ⟨?_, ?_⟩
    · rintro ⟨rfl, answered⟩
      exact ⟨rfl, answered⟩
    · rintro ⟨same, answered⟩
      cases same
      exact ⟨rfl, answered⟩
  | setFlag element value => simp [perform, batches_setFlag]
  | solve engine deadline => simp [perform, (session.keeps_solve engine deadline).batches]
  | findModel engine atoms => simp [perform, (session.keeps_findModel engine atoms).batches]

/-- A batch that a run asked for and that was answered with an identifier. -/
def Accepted (requests : List (Request α)) (batch : Batch α) : Prop :=
  ∃ before after, requests = before ++ .apply batch :: after ∧
    ((run before).apply batch).1.toBool = true

/-- The batches of a session are those that it has accepted. -/
theorem mem_batches_run (requests : List (Request α)) (batch : Batch α) :
    batch ∈ (run requests).batches ↔ Accepted requests batch := by
  simp only [Accepted]
  induction requests using List.reverseRecOn with
  | nil => simp [run, empty]
  | append_singleton requests request ih =>
    rw [run_append_singleton, mem_batches_perform, ih]
    constructor
    · rintro (⟨before, after, rfl, answered⟩ | ⟨rfl, answered⟩)
      · exact ⟨before, after ++ [request], by simp, answered⟩
      · exact ⟨requests, [], rfl, answered⟩
    · rintro ⟨before, after, split, answered⟩
      rcases List.eq_nil_or_concat after with rfl | ⟨init, last, rfl⟩
      · obtain ⟨rfl, same⟩ := List.append_inj' split rfl
        exact .inr ⟨List.singleton_inj.mp same, answered⟩
      · have regrouped : requests ++ [request] = (before ++ .apply batch :: init) ++ [last] := by
          simp [split]
        exact .inl ⟨before, init, (List.append_inj' regrouped rfl).1, answered⟩

end Argumentation.Session
