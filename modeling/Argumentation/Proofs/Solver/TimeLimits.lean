import Argumentation.Proofs.Session.Traffic
import Argumentation.Proofs.Solver.Compilation
import Argumentation.Proofs.Solver.Runs

/-!
# Time limits

An enumeration with a time limit computes its deadline before anything else. A deadline beyond the
last instant of the clock cannot be computed, however far it is from being reached. Any other
deadline cuts the enumeration off once it has passed, and one that is not reached is not noticed.
-/

namespace Argumentation

variable {α β γ : Type}

/-- A query that ends as it should: with an answer, because the time is up, or because the engine
gives no verdict. -/
def Ends (result : Except (Failure α) β) : Prop :=
  (∃ answer, result = .ok answer) ∨ (∃ found, result = .error (.error (.solveTimeout found))) ∨
    result = .error (.error .engineFailure)

theorem Ends.map {result : Except (Failure α) β} (ends : Ends result) (f : β -> γ) :
    Ends (result.map f) := by
  rcases ends with ⟨answer, rfl⟩ | ⟨found, rfl⟩ | rfl
  · exact .inl ⟨f answer, rfl⟩
  · exact .inr (.inl ⟨found, rfl⟩)
  · exact .inr (.inr rfl)

theorem map_eq_error_iff {ε : Type} {result : Except ε β} {f : β -> γ} {error : ε} :
    result.map f = .error error ↔ result = .error error := by
  cases result <;> simp [Except.map]

namespace Setting

/-- The deadline lies beyond the last instant of the clock. -/
def Overflows (setting : Setting) : Prop :=
  ∃ seconds, setting.timeout = some seconds ∧
    2 ^ 63 <= setting.clock 0 / Deadline.second + seconds

/-- The time is up before a solving call; the calls of an enumeration are counted from zero. -/
def IsLate (setting : Setting) (call : Nat) : Prop :=
  ∃ seconds, setting.timeout = some seconds ∧
    setting.clock 0 + seconds * Deadline.second <= setting.clock (call + 1)

/-- The setting without its time limit. -/
def unlimited (setting : Setting) : Setting :=
  { setting with timeout := none }

/-- What a time limit makes of a query that takes some solving calls without it. -/
structure Limits (setting : Setting) (limited unlimited : Except (Failure α) β × γ)
    (calls : Nat) : Prop where
  overflow : limited.1 = .error .deadlineOverflow ↔ setting.Overflows
  ends : ¬ setting.Overflows -> setting.engine.Sound -> Ends limited.1
  late : forall found, limited.1 = .error (.error (.solveTimeout found)) -> setting.IsLate found
  /-- The answer and what the query leaves are those without a limit. -/
  unreached : ¬ setting.Overflows -> (forall call, call < calls -> ¬ setting.IsLate call) ->
    limited = unlimited

theorem Limits.map {setting : Setting} {limited unlimited : Except (Failure α) β × γ}
    {calls : Nat} (limits : setting.Limits limited unlimited calls) {β' γ' : Type}
    (answer : β -> β') (left : γ -> γ') :
    setting.Limits (limited.1.map answer, left limited.2)
      (unlimited.1.map answer, left unlimited.2) calls where
  overflow := map_eq_error_iff.trans limits.overflow
  ends inRange sound := (limits.ends inRange sound).map answer
  late found timeUp := limits.late found (map_eq_error_iff.mp timeUp)
  unreached inRange inTime := by rw [limits.unreached inRange inTime]

theorem deadline?_eq_none_iff {setting : Setting} :
    setting.deadline? = none ↔ setting.Overflows := by
  simp only [deadline?, Overflows]
  cases setting.timeout with
  | none => simp
  | some seconds => simp [Deadline.after?]

theorem isLate_iff {setting : Setting} {deadline : Deadline}
    (computed : setting.deadline? = some deadline) (call : Nat) :
    deadline call = true ↔ setting.IsLate call := by
  simp only [deadline?, IsLate] at computed ⊢
  cases limit : setting.timeout with
  | none =>
    rw [limit] at computed
    cases computed
    simp [Deadline.never]
  | some seconds =>
    simp only [limit, Deadline.after?, Option.ite_none_right_eq_some, Option.some.injEq] at computed
    obtain ⟨_, rfl⟩ := computed
    simp

end Setting

namespace Session

open Argumentation.Sat (Literal Engine)

/-- However an enumeration ends, the time is only reported to be up when it is. -/
theorem collect_cases (engine : Engine) (deadline : Deadline) (selector : Nat)
    (assumptions : List Literal) (calls found : Nat) (session : Session α) :
    let result := (collect engine deadline selector assumptions calls found session).1
    (∃ extensions, result = .ok extensions) ∨
      (∃ count, result = .error (.error (.solveTimeout count)) ∧ deadline count = true) ∨
      result = .error (.error .engineFailure) ∨ result = .error .endless := by
  induction calls generalizing found session with
  | zero => exact .inr (.inr (.inr rfl))
  | succ calls ih =>
    cases passed : deadline found with
    | true => exact .inr (.inl ⟨found, by simp [collect, passed], passed⟩)
    | false =>
      cases answer : engine.answer session.journal.transcript assumptions with
      | satisfiable model =>
        simp only [collect_satisfiable passed answer]
        rcases ih (found + 1) ((session.ask engine assumptions).2.send
            (session.blockingClause selector model)) with
          ⟨extensions, same⟩ | ⟨count, same, late⟩ | same | same
        · exact .inl ⟨session.extension model :: extensions, by rw [same]; rfl⟩
        · exact .inr (.inl ⟨count, by rw [same]; rfl, late⟩)
        · exact .inr (.inr (.inl (by rw [same]; rfl)))
        · exact .inr (.inr (.inr (by rw [same]; rfl)))
      | unsatisfiable => exact .inl ⟨[], by simp [collect, passed, ask, answer]⟩
      | unknown => exact .inr (.inr (.inl (by simp [collect, passed, ask, answer])))

/-- An enumeration only adds calls. -/
theorem length_calls_collect_le (engine : Engine) (deadline : Deadline) (selector : Nat)
    (assumptions : List Literal) (calls found : Nat) (session : Session α) :
    session.journal.calls.length <=
      (collect engine deadline selector assumptions calls found session).2.journal.calls.length := by
  obtain ⟨_, made, _, called, _⟩ :=
    exists_sent_collect engine deadline selector assumptions calls found session
  simp [called]

/-- A deadline that is not reached before any of the calls made without it changes nothing. -/
theorem collect_of_inTime {engine : Engine} {deadline : Deadline} {selector : Nat}
    {assumptions : List Literal} (calls found : Nat) (session : Session α)
    (inTime : forall call, found <= call ->
      session.journal.calls.length + call < found +
        (collect engine .never selector assumptions calls found session).2.journal.calls.length ->
      deadline call = false) :
    collect engine deadline selector assumptions calls found session =
      collect engine .never selector assumptions calls found session := by
  induction calls generalizing found session with
  | zero => rfl
  | succ calls ih =>
    have asked : (session.ask engine assumptions).2.journal.calls.length =
        session.journal.calls.length + 1 := by simp [calls_ask]
    cases answer : engine.answer session.journal.transcript assumptions with
    | satisfiable model =>
      -- This call comes before the deadline, as the later rounds only add calls to it.
      have later := length_calls_collect_le engine .never selector assumptions calls (found + 1)
        ((session.ask engine assumptions).2.send (session.blockingClause selector model))
      have never : Deadline.never found = false := rfl
      simp only [collect_satisfiable never answer] at inTime ⊢
      rw [calls_send, asked] at later
      have now : deadline found = false := inTime found (Nat.le_refl _) (by omega)
      rw [collect_satisfiable now answer, ih (found + 1) _ fun call after before => ?_]
      rw [calls_send, asked] at before
      exact inTime call (by omega) (by omega)
    | unsatisfiable | unknown =>
      have same : (collect engine .never selector assumptions (calls + 1) found session).2 =
          (session.ask engine assumptions).2 := by simp [collect, Deadline.never, ask, answer]
      have now : deadline found = false := inTime found (Nat.le_refl _) (by
        rw [same, asked]
        omega)
      simp [collect, Deadline.never, now, ask, answer]

theorem solve_cases (session : Session α) (engine : Engine) (deadline : Deadline) :
    let result := (session.solve engine deadline).1
    (∃ extensions, result = .ok extensions) ∨
      (∃ count, result = .error (.error (.solveTimeout count)) ∧ deadline count = true) ∨
      result = .error (.error .engineFailure) ∨ result = .error .endless := by
  simp only [solve]
  exact collect_cases engine deadline _ _ (session.callBound engine) 0 session.fresh.2

theorem solve_of_inTime {session : Session α} {engine : Engine} {deadline : Deadline}
    (inTime : forall call, call < (session.solve engine .never).2.journal.calls.length
      - session.journal.calls.length -> deadline call = false) :
    session.solve engine deadline = session.solve engine .never := by
  simp only [solve, calls_send] at inTime ⊢
  rw [collect_of_inTime _ 0 session.fresh.2 fun call _ before => inTime call ?_]
  simp only [fresh] at before ⊢
  omega

end Session

namespace Setting

/-- What a time limit makes of the enumeration of a session with distinct visible labels. -/
theorem limits_enumerate (setting : Setting) {session : Session α}
    (distinct : (session.shown.map Prod.fst).Nodup) :
    setting.Limits (setting.enumerate session) (setting.unlimited.enumerate session)
      ((setting.unlimited.enumerate session).2.journal.calls.length
        - session.journal.calls.length) := by
  have unlimited : setting.unlimited.enumerate session = session.solve setting.engine .never := rfl
  cases computed : setting.deadline? with
  | none =>
    have overflows := deadline?_eq_none_iff.mp computed
    have limited : setting.enumerate session = (.error .deadlineOverflow, session) := by
      rw [enumerate, computed]
    exact
      { overflow := by simp [limited, overflows]
        ends := fun inRange => absurd overflows inRange
        late := fun found timeUp => by simp [limited] at timeUp
        unreached := fun inRange => absurd overflows inRange }
  | some deadline =>
    have inRange : ¬ setting.Overflows := fun overflows => by
      rw [deadline?_eq_none_iff.mpr overflows] at computed
      cases computed
    have limited : setting.enumerate session = session.solve setting.engine deadline := by
      rw [enumerate, computed]
    have outcomes := session.solve_cases setting.engine deadline
    rw [limited, unlimited]
    refine ⟨iff_of_false (fun overflow => ?_) inRange, fun _ sound => ?_, fun found timeUp => ?_,
      fun _ inTime => ?_⟩
    · rw [overflow] at outcomes
      simp at outcomes
    · obtain ⟨models, ending, _, _, _, solved⟩ :=
        Session.exists_rounds_solve sound deadline distinct
      rw [solved]
      cases ending with
      | late => exact .inr (.inl ⟨models.length, rfl⟩)
      | exhausted => exact .inl ⟨_, rfl⟩
      | undecided => exact .inr (.inr rfl)
    · rw [timeUp] at outcomes
      simp only [reduceCtorEq, exists_false, false_or, or_false, Except.error.injEq,
        Failure.error.injEq, Error.solveTimeout.injEq] at outcomes
      obtain ⟨count, rfl, passed⟩ := outcomes
      exact (isLate_iff computed found).mp passed
    · refine Session.solve_of_inTime fun call before => ?_
      exact Bool.eq_false_iff.mpr fun passed =>
        inTime call before ((isLate_iff computed call).mp passed)

variable [DecidableEq α] [Label α]

/-- After any run, a solver either cannot compute the deadline of an enumeration, which is the case
exactly when it lies beyond the last instant of the clock, or enumerates and counts up to the
deadline; before the deadline there is no difference from a solver without a time limit. A framework
with an invalid label is refused whatever the limit, and all the others are treated alike. -/
theorem limits_run (requests : List (DynamicSolver.Request α)) {framework : Framework α}
    (built : framework.IsBuilt) (setting : Setting) :
    (let solver := DynamicSolver.run requests
      let calls := (solver.enumerate setting.unlimited).2.session.journal.calls.length
        - solver.session.journal.calls.length
      setting.Limits (solver.enumerate setting) (solver.enumerate setting.unlimited) calls ∧
        setting.Limits (solver.count setting) (solver.count setting.unlimited) calls) ∧
      match framework.arguments.labels.find? fun label => !Label.isValid label with
      | some invalid =>
        (FromScratch.enumerate setting framework).1 = .error (.error (.invalidLabel invalid)) ∧
          (FromScratch.count setting framework).1 = .error (.error (.invalidLabel invalid))
      | none =>
        let calls := (FromScratch.enumerate setting.unlimited framework).2.journal.calls.length
          - (FromScratch.build framework).2.journal.calls.length
        setting.Limits (FromScratch.enumerate setting framework)
            (FromScratch.enumerate setting.unlimited framework) calls ∧
          setting.Limits (FromScratch.count setting framework)
            (FromScratch.count setting.unlimited framework) calls := by
  constructor
  · intro solver calls
    obtain ⟨ledger, encoded⟩ := (DynamicSolver.coherent_run requests).1.encoded
    let noted := solver.session.note .info solver.enumerationNote
    have distinct : (noted.shown.map Prod.fst).Nodup := encoded.labels ▸ nodup_visible _
    have enumerated := (setting.limits_enumerate distinct).map id
      fun session => { solver with session }
    have uncalled : noted.journal.calls = solver.session.journal.calls := by
      simp [noted, Session.note, Journal.calls]
    simp only [Except.map_id, id_eq, uncalled] at enumerated
    exact ⟨enumerated, enumerated.map List.length id⟩
  · split
    · rename_i invalid first
      obtain ⟨enumerated, counted, _⟩ := FromScratch.queries_of_refused setting
        (FromScratch.build_of_invalid built.consistent first)
      exact ⟨enumerated, counted⟩
    · rename_i none
      intro calls
      obtain ⟨session, compiled, represents, _⟩ := FromScratch.build_exact built.consistent
        (by simpa using none)
      obtain ⟨ledger, encoded⟩ := represents.encoded
      have distinct : (session.shown.map Prod.fst).Nodup := encoded.labels ▸ nodup_visible _
      have enumerated := setting.limits_enumerate distinct
      have same : forall setting : Setting,
          FromScratch.enumerate setting framework = setting.enumerate session := fun setting => by
        rw [FromScratch.enumerate, compiled]
      have left : (FromScratch.build framework).2 = session := congrArg Prod.snd compiled
      simp only [calls, FromScratch.count, same, left]
      exact ⟨enumerated, enumerated.map List.length id⟩

/-- An hour, on a clock that shows a second more at each reading. -/
def hour : Setting :=
  { engine := .searching, timeout := some 3600, clock := fun reading => reading * Deadline.second }

theorem overflows_hour : ¬ hour.Overflows := by
  rintro ⟨seconds, limit, far⟩
  cases limit
  exact absurd far (by decide)

theorem isLate_hour (call : Nat) : hour.IsLate call ↔ 3599 <= call := by
  simp only [IsLate, hour, Option.some.injEq, exists_eq_left', Deadline.second]
  omega

/-- An hour is enough for two arguments that attack each other, in a solver and from scratch. -/
theorem limits_run_hour :
    ∃ framework : Framework Int, Framework.ofLists [1, 2] [(1, 2), (2, 1)] = .ok framework ∧
      framework.IsBuilt ∧
      let solver := DynamicSolver.run
        [.newArgument (1 : Int), .newArgument 2, .newAttack 1 2, .newAttack 2 1]
      solver.enumerate hour = solver.enumerate hour.unlimited ∧
        FromScratch.enumerate hour framework = FromScratch.enumerate hour.unlimited framework := by
  obtain ⟨framework, listed⟩ : ∃ framework : Framework Int,
      Framework.ofLists [1, 2] [(1, 2), (2, 1)] = .ok framework := ⟨_, rfl⟩
  obtain ⟨built, labels, _⟩ := Framework.isBuilt_ofLists listed
  refine ⟨framework, listed, built, ?_⟩
  intro solver
  obtain ⟨⟨changing, _⟩, fixed⟩ := limits_run
    [.newArgument (1 : Int), .newArgument 2, .newAttack 1 2, .newAttack 2 1] built hour
  have valid : ([1, 2] : List Int).find? (fun label => !Label.isValid label) = none := by
    decide +kernel
  rw [labels, valid] at fixed
  -- Neither enumeration takes more than four calls.
  refine ⟨changing.unreached overflows_hour fun call before => ?_,
    fixed.1.unreached overflows_hour fun call before => ?_⟩
  · have calls : call < 4 := before.trans_le (by decide +kernel)
    rw [isLate_hour]
    omega
  · cases listed
    have calls : call < 4 := before.trans_le (by decide +kernel)
    rw [isLate_hour]
    omega

/-- Without arguments the empty set is the only extension. The longest limit, which no clock
reaches, keeps it from being found, and no error of an enumeration is reported. -/
theorem deadlineOverflow_longest :
    let setting : Setting := { engine := .searching, timeout := some (2 ^ 64 - 1) }
    let solver : DynamicSolver Int := DynamicSolver.run []
    (forall call, ¬ setting.IsLate call) ∧
      (solver.enumerate setting.unlimited).1 = .ok [[]] ∧
      (solver.enumerate setting).1 = .error .deadlineOverflow ∧
      ¬ Ends (solver.enumerate setting).1 := by
  intro setting solver
  have overflow : (solver.enumerate setting).1 = .error .deadlineOverflow := by decide +kernel
  refine ⟨fun call late => ?_, by decide +kernel, overflow, ?_⟩
  · simp [IsLate, setting, Deadline.second] at late
  · rw [overflow]
    simp [Ends]

end Setting

end Argumentation
