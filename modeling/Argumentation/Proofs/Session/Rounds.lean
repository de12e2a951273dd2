import Argumentation.Proofs.Session.Exactness

/-!
# Rounds of an enumeration

An enumeration asks the engine again and again, and nothing but the answers and the deadline ends
it. `Session.Rounds` is this loop without a bound on its calls. When the answers are sound, each
model excludes one more set of visible labels, so the loop ends, and `Session.solve` is this loop:
the bound on its calls is never reached.
-/

namespace Argumentation.Session

open Argumentation.Sat (Literal Clause Engine Assignment)

variable {α : Type}

/-- What ends an enumeration. -/
inductive Ending where
  /-- The time is up before a call. -/
  | late
  /-- The engine finds no more models. -/
  | exhausted
  /-- The engine gives no verdict. -/
  | undecided
  deriving DecidableEq

/-- The answer of an enumeration; `found` is the number of its extensions. -/
def Ending.answer (found : Nat) (extensions : List (Extension α)) :
    Ending -> Except (Failure α) (List (Extension α))
  | .late => .error (.error (.solveTimeout found))
  | .exhausted => .ok extensions
  | .undecided => .error (.error .engineFailure)

/-- The number of calls besides those that find a model. -/
def Ending.calls : Ending -> Nat
  | .late => 0
  | .exhausted | .undecided => 1

/-- The rounds of an enumeration: the models that the engine gives one after the other, each of them
excluded by a clause before the next call, what ends the enumeration, and the session after it. -/
inductive Rounds (engine : Engine) (deadline : Deadline) (selector : Nat)
    (assumptions : List Literal) :
    Nat -> Session α -> List Assignment -> Ending -> Session α -> Prop where
  | late {found session} (passed : deadline found = true) :
      Rounds engine deadline selector assumptions found session [] .late session
  | exhausted {found session} (inTime : deadline found = false)
      (verdict : engine.answer session.journal.transcript assumptions = .unsatisfiable) :
      Rounds engine deadline selector assumptions found session [] .exhausted
        (session.ask engine assumptions).2
  | undecided {found session} (inTime : deadline found = false)
      (verdict : engine.answer session.journal.transcript assumptions = .unknown) :
      Rounds engine deadline selector assumptions found session [] .undecided
        (session.ask engine assumptions).2
  | next {found session model models ending last} (inTime : deadline found = false)
      (verdict : engine.answer session.journal.transcript assumptions = .satisfiable model)
      (rest : Rounds engine deadline selector assumptions (found + 1)
        ((session.ask engine assumptions).2.send (session.blockingClause selector model))
        models ending last) :
      Rounds engine deadline selector assumptions found session (model :: models) ending last

theorem Ending.answer_cons (ending : Ending) (found : Nat) (extension : Extension α)
    (extensions : List (Extension α)) :
    (ending.answer found extensions).map (extension :: ·) =
      ending.answer found (extension :: extensions) := by
  cases ending <;> rfl

theorem calls_ask (session : Session α) (engine : Engine) (assumptions : List Literal) :
    (session.ask engine assumptions).2.journal.calls = session.journal.calls ++ [assumptions] := by
  simp [ask, Journal.calls]

theorem calls_send (session : Session α) (clause : Clause) :
    (session.send clause).journal.calls = session.journal.calls := by
  simp [send, Journal.calls]

theorem length_clauses_send (session : Session α) (clause : Clause) :
    (session.send clause).journal.clauses.length = session.journal.clauses.length + 1 := by
  simp [send, Journal.clauses]

section Rounds

variable {engine : Engine} {deadline : Deadline} {selector found : Nat}
  {assumptions : List Literal} {session last : Session α} {models : List Assignment}
  {ending : Ending}

/-- A bound that leaves a call beyond the models is not noticed. -/
theorem Rounds.collect_eq
    (rounds : Rounds engine deadline selector assumptions found session models ending last)
    {calls : Nat} (enough : models.length < calls) :
    collect engine deadline selector assumptions calls found session =
      (ending.answer (found + models.length) (models.map session.extension), last) := by
  induction rounds generalizing calls with
  | late passed =>
    obtain ⟨calls, rfl⟩ := Nat.exists_eq_add_one_of_ne_zero (Nat.ne_zero_of_lt enough)
    simp [collect, passed, Ending.answer]
  | exhausted inTime verdict | undecided inTime verdict =>
    obtain ⟨calls, rfl⟩ := Nat.exists_eq_add_one_of_ne_zero (Nat.ne_zero_of_lt enough)
    simp [collect, inTime, ask, verdict, Ending.answer]
  | @next found session model models ending last inTime verdict rest ih =>
    obtain ⟨calls, rfl⟩ := Nat.exists_eq_add_one_of_ne_zero (Nat.ne_zero_of_lt enough)
    have fewer : models.length < calls := by simpa using enough
    have collected := ih fewer
    rw [collect_satisfiable inTime verdict, collected]
    simp only [Ending.answer_cons, List.map_cons, List.length_cons]
    rw [Nat.add_right_comm, Nat.add_assoc]
    rfl

/-- Each model adds the clause that excludes it. -/
theorem Rounds.sent_eq
    (rounds : Rounds engine deadline selector assumptions found session models ending last) :
    last.sent = session.sent ++ models.map (session.blockingClause selector) := by
  induction rounds with
  | late passed => simp
  | exhausted inTime verdict | undecided inTime verdict => simp
  | next inTime verdict rest ih =>
    rw [ih, sent_send, sent_ask, List.append_assoc]
    rfl

/-- All the calls are made under the same assumptions. -/
theorem Rounds.calls_eq
    (rounds : Rounds engine deadline selector assumptions found session models ending last) :
    last.journal.calls =
      session.journal.calls ++ List.replicate (models.length + ending.calls) assumptions := by
  induction rounds with
  | late passed => simp [Ending.calls]
  | exhausted inTime verdict | undecided inTime verdict => simp [calls_ask, Ending.calls]
  | next inTime verdict rest ih =>
    rw [ih, calls_send, calls_ask, List.length_cons, Nat.add_right_comm, List.replicate_succ,
      List.append_assoc]
    rfl

theorem Rounds.length_calls
    (rounds : Rounds engine deadline selector assumptions found session models ending last) :
    last.journal.calls.length =
      session.journal.calls.length + (models.length + ending.calls) := by
  rw [rounds.calls_eq, List.length_append, List.length_replicate]

theorem Rounds.length_clauses
    (rounds : Rounds engine deadline selector assumptions found session models ending last) :
    last.journal.clauses.length = session.journal.clauses.length + models.length := by
  have sent := congrArg List.length rounds.sent_eq
  rwa [List.length_append, List.length_map] at sent

/-- Sound answers give answers of the session, each once: a model is not found again. -/
theorem Rounds.mem_answers
    (rounds : Rounds engine deadline selector assumptions found session models ending last)
    (sound : engine.Sound) (chosen : .pos selector ∈ assumptions)
    (distinct : (session.shown.map Prod.fst).Nodup) :
    (models.map session.extension).Nodup ∧
      forall extension, extension ∈ models.map session.extension ->
        extension ∈ session.answers assumptions := by
  induction rounds with
  | late passed => simp
  | exhausted inTime verdict | undecided inTime verdict => simp
  | @next found session model models ending last inTime verdict rest ih =>
    obtain ⟨nodup, others⟩ := ih distinct
    rw [answers_block distinct engine chosen model] at others
    have member : session.extension model ∈ session.answers assumptions :=
      ⟨_, allows_of_sound sound verdict, (extension_eq session model).symm⟩
    refine ⟨List.nodup_cons.mpr ⟨fun again => (others _ again).2 rfl, nodup⟩, ?_⟩
    rw [List.map_cons, List.forall_mem_cons]
    exact ⟨member, fun extension later => (others extension later).1⟩

/-- There are at most as many models as answers. -/
theorem Rounds.length_le
    (rounds : Rounds engine deadline selector assumptions found session models ending last)
    (sound : engine.Sound) (chosen : .pos selector ∈ assumptions)
    (distinct : (session.shown.map Prod.fst).Nodup) :
    models.length <= (session.answers assumptions).ncard := by
  classical
  obtain ⟨nodup, members⟩ := rounds.mem_answers sound chosen distinct
  calc models.length
      = (models.map session.extension).toFinset.card := by
        rw [List.toFinset_card_of_nodup nodup, List.length_map]
    _ = ((models.map session.extension).toFinset : Set (Extension α)).ncard :=
        (Set.ncard_coe_finset _).symm
    _ <= (session.answers assumptions).ncard :=
        Set.ncard_le_ncard (fun extension inside => members extension (by simpa using inside))
          (session.finite_answers assumptions).1

end Rounds

/-- With sound answers an enumeration ends, as every model leaves fewer answers. -/
theorem exists_rounds {engine : Engine} (sound : engine.Sound) (deadline : Deadline)
    {selector : Nat} {assumptions : List Literal} (chosen : .pos selector ∈ assumptions)
    (found : Nat) (session : Session α) (distinct : (session.shown.map Prod.fst).Nodup) :
    ∃ models ending last,
      Rounds engine deadline selector assumptions found session models ending last := by
  induction left : (session.answers assumptions).ncard using Nat.strong_induction_on
    generalizing found session with
  | _ count ih =>
    cases passed : deadline found with
    | true => exact ⟨[], .late, session, .late passed⟩
    | false =>
      cases verdict : engine.answer session.journal.transcript assumptions with
      | unsatisfiable => exact ⟨_, _, _, .exhausted passed verdict⟩
      | unknown => exact ⟨_, _, _, .undecided passed verdict⟩
      | satisfiable model =>
        have member : session.extension model ∈ session.answers assumptions :=
          ⟨_, allows_of_sound sound verdict, (extension_eq session model).symm⟩
        have fewer : (session.answers assumptions \ {session.extension model}).ncard < count :=
          left ▸ Set.ncard_sdiff_singleton_lt_of_mem member (session.finite_answers assumptions).1
        rw [← answers_block distinct engine chosen model] at fewer
        obtain ⟨models, ending, last, rest⟩ := ih _ fewer (found + 1)
          ((session.ask engine assumptions).2.send (session.blockingClause selector model))
          distinct rfl
        exact ⟨model :: models, ending, last, .next passed verdict rest⟩

/-- With sound answers `Session.solve` is the loop of the rounds. -/
theorem exists_rounds_solve {engine : Engine} (sound : engine.Sound) (deadline : Deadline)
    {session : Session α} (distinct : (session.shown.map Prod.fst).Nodup) :
    ∃ models ending last,
      Rounds engine deadline session.fresh.1
        (session.assumptions ++ [.pos session.fresh.1]) 0 session.fresh.2 models ending last ∧
      models.length <= 2 ^ session.shown.length ∧
      session.solve engine deadline =
        (ending.answer models.length (models.map session.extension),
          last.send [.neg session.fresh.1]) := by
  have chosen : Literal.pos session.fresh.1 ∈
      session.assumptions ++ [.pos session.fresh.1] := by simp
  obtain ⟨models, ending, last, rounds⟩ :=
    exists_rounds sound deadline chosen 0 session.fresh.2 distinct
  have few : models.length <= 2 ^ session.shown.length :=
    (rounds.length_le sound chosen distinct).trans (session.fresh.2.finite_answers _).2
  have enough : models.length < session.callBound engine := by
    simp only [callBound, Nat.pow_eq]
    omega
  have collected := rounds.collect_eq enough
  rw [Nat.zero_add] at collected
  exact ⟨models, ending, last, rounds, few, congrArg
    (fun outcome : Except (Failure α) (List (Extension α)) × Session α =>
      (outcome.1, outcome.2.send [.neg session.fresh.1])) collected⟩

/-- A list of visible labels has each of them once, in the order in which they became visible. -/
theorem labelsOf_sublist (session : Session α) (valuation : Nat -> Bool) :
    (session.labelsOf valuation).Sublist (session.shown.map Prod.fst) :=
  List.filter_sublist.map Prod.fst

section Runs

variable [DecidableEq α] [Label α]

/-- After any run, an enumeration by an engine whose models are sound ends after at most one call
more than there are sets of visible labels. It collects distinct extensions, each of which lists
distinct labels in the order in which they became visible; when it lists them all, it has made one
call and sent one clause for each of them, and one more. -/
theorem solve_run_rounds (requests : List (Request α)) {engine : Engine} (sound : engine.Sound)
    (deadline : Deadline) :
    let session := run requests
    let later := (session.solve engine deadline).2
    let labels := visible (programOf session.batches)
    session.shown.map Prod.fst = labels ∧
      ∃ models ending last,
        Rounds engine deadline session.fresh.1
          (session.assumptions ++ [.pos session.fresh.1]) 0 session.fresh.2 models ending last ∧
        session.solve engine deadline =
          (ending.answer models.length (models.map session.extension),
            last.send [.neg session.fresh.1]) ∧
        later.journal.calls.length =
          session.journal.calls.length + (models.length + ending.calls) ∧
        models.length + ending.calls <= 2 ^ session.shown.length + 1 ∧
        (models.map session.extension).Nodup ∧
        (forall extension, extension ∈ models.map session.extension ->
          extension.Nodup ∧ extension.Sublist labels) ∧
        forall extensions, (session.solve engine deadline).1 = .ok extensions ->
          later.journal.calls.length =
              session.journal.calls.length + (extensions.length + 1) ∧
            later.journal.clauses.length =
              session.journal.clauses.length + (extensions.length + 1) := by
  intro session later labels
  obtain ⟨_, settled⟩ := settled_run requests
  have shown : session.shown.map Prod.fst = labels := settled.labels
  have distinct : (session.shown.map Prod.fst).Nodup := shown ▸ nodup_visible _
  obtain ⟨models, ending, last, rounds, few, solved⟩ :=
    exists_rounds_solve sound deadline distinct
  have finished : later = last.send [.neg session.fresh.1] := congrArg Prod.snd solved
  have calls : later.journal.calls.length =
      session.journal.calls.length + (models.length + ending.calls) := by
    rw [finished, calls_send]
    exact rounds.length_calls
  have clauses : later.journal.clauses.length =
      session.journal.clauses.length + (models.length + 1) := by
    rw [finished, length_clauses_send, rounds.length_clauses]
    rfl
  refine ⟨shown, models, ending, last, rounds, solved, calls, ?_, ?_, ?_, ?_⟩
  · cases ending <;> simp only [Ending.calls] <;> omega
  · exact (rounds.mem_answers sound (by simp) distinct).1
  · intro extension member
    obtain ⟨model, _, rfl⟩ := List.mem_map.mp member
    have sublist := shown ▸ session.labelsOf_sublist (valuationOf model)
    exact ⟨(nodup_visible _).sublist sublist, sublist⟩
  · intro extensions answered
    rw [solved] at answered
    -- Only an enumeration that is exhausted lists its extensions.
    cases ending with
    | late | undecided => cases answered
    | exhausted =>
      cases answered
      rw [List.length_map]
      exact ⟨calls, clauses⟩

/-- A single argument shows that as many calls may be needed. -/
theorem solve_run_rounds_single :
    Engine.searching.Sound ∧
      ((run singleRun).solve .searching .never).1 = .ok [[1], []] ∧
      List.Sublist [1] (visible (programOf (run singleRun).batches)) ∧
      ((run singleRun).solve .searching .never).2.journal.calls.length =
        (run singleRun).journal.calls.length + (2 ^ (run singleRun).shown.length + 1) ∧
      ((run singleRun).solve .searching .never).2.journal.clauses.length =
        (run singleRun).journal.clauses.length + 3 := by
  obtain ⟨_, models, ending, last, _, solved, _, _, _, ordered, exhausted⟩ :=
    solve_run_rounds singleRun Engine.searching_sound .never
  have listed : ((run singleRun).solve .searching .never).1 = .ok [[1], []] := by
    decide +kernel
  have member : [1] ∈ models.map (run singleRun).extension := by
    rw [solved] at listed
    cases ending with
    | late | undecided => cases listed
    | exhausted =>
      rw [Except.ok.inj listed]
      decide
  have single : (run singleRun).shown.length = 1 := by decide +kernel
  obtain ⟨calls, clauses⟩ := exhausted _ listed
  exact ⟨Engine.searching_sound, listed, (ordered [1] member).2, single ▸ calls, clauses⟩

end Runs

end Argumentation.Session
