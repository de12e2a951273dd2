import Argumentation.Proofs.Session.Rounds

/-!
# Traffic with the engine

What the requests of a session send to its engine. Grounding makes no calls. A search makes at most
one call and sends nothing. An enumeration draws its selector, then makes all its calls under the
same assumptions and sends one clause for each model and a last one that takes the selector out of
use.
-/

namespace Argumentation.Session

open Argumentation.Sat (Literal Clause Engine Assignment)

variable {α : Type}

section Queries

/-- The rounds of an enumeration send clauses that exclude models, call under the same assumptions
and draw no variable. -/
theorem exists_sent_collect (engine : Engine) (deadline : Deadline) (selector : Nat)
    (assumptions : List Literal) (calls found : Nat) (session : Session α) :
    let later := (collect engine deadline selector assumptions calls found session).2
    ∃ (models : List Assignment) (made : Nat),
      later.sent = session.sent ++ models.map (session.blockingClause selector) ∧
        later.journal.calls = session.journal.calls ++ List.replicate made assumptions ∧
        later.variableCount = session.variableCount := by
  induction calls generalizing found session with
  | zero => exact ⟨[], 0, by simp [collect]⟩
  | succ calls ih =>
    cases passed : deadline found with
    | true => exact ⟨[], 0, by simp [collect, passed]⟩
    | false =>
      have asked := calls_ask session engine assumptions
      cases answer : engine.answer session.journal.transcript assumptions with
      | satisfiable model =>
        obtain ⟨models, made, sent, called, count⟩ := ih (found + 1)
          ((session.ask engine assumptions).2.send (session.blockingClause selector model))
        rw [sent_send, sent_ask] at sent
        rw [calls_send, asked] at called
        simp only [collect_satisfiable passed answer]
        refine ⟨model :: models, made + 1, ?_, ?_, count⟩
        · rw [sent, List.append_assoc]
          rfl
        · rw [called, List.append_assoc, List.replicate_succ]
          rfl
      | unsatisfiable | unknown =>
        have same : (collect engine deadline selector assumptions (calls + 1) found session).2 =
            (session.ask engine assumptions).2 := by simp [collect, passed, ask, answer]
        refine ⟨[], 1, ?_⟩
        simp only [same, sent_ask, asked]
        simp [ask]

/-- What an enumeration sends and under which assumptions it calls. -/
theorem exists_sent_solve (session : Session α) (engine : Engine) (deadline : Deadline) :
    let later := (session.solve engine deadline).2
    ∃ (models : List Assignment) (made : Nat),
      later.sent = session.sent ++ (models.map (session.blockingClause (session.variableCount + 1))
        ++ [[.neg (session.variableCount + 1)]]) ∧
        later.journal.calls = session.journal.calls ++
          List.replicate made (session.assumptions ++ [.pos (session.variableCount + 1)]) ∧
        later.variableCount = session.variableCount + 1 := by
  obtain ⟨models, made, sent, called, count⟩ := exists_sent_collect engine deadline
    session.fresh.1 (session.fresh.2.assumptions ++ [.pos session.fresh.1])
    (session.callBound engine) 0 session.fresh.2
  refine ⟨models, made, ?_, ?_, count⟩
  · simp only [solve, sent_send, sent, List.append_assoc]
    rfl
  · simp only [solve, calls_send, called]
    rfl

variable [DecidableEq α]

/-- What a search does: it calls under further assumptions, or it does nothing. -/
theorem findModel_cases (session : Session α) (engine : Engine) (atoms : List (Atom α)) :
    (session.findModel engine atoms).2 = session ∨
      ∃ literals, session.assumedLiterals atoms = .ok literals ∧
        (session.findModel engine atoms).2 =
          (session.ask engine (session.assumptions ++ literals)).2 := by
  unfold findModel
  split
  · exact .inl rfl
  · rename_i literals known
    refine .inr ⟨literals, known, ?_⟩
    split <;> rename_i answer <;> exact (congrArg Prod.snd answer).symm

end Queries

end Argumentation.Session
