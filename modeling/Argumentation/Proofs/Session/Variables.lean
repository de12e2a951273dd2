import Argumentation.Proofs.Sat.Narrowing
import Argumentation.Proofs.Session.Turnover

/-!
# Variables on the wire

All that a session ever sends to its engine is about variables that it has drawn before. A request
alternates between drawing variables and sending clauses or calling (`Session.Moment`), and whatever
was sent at the end of such a moment is about variables drawn at its beginning. As variables are
never given another use, an engine that reads words of 32 bits gets every literal as it is, as long
as there are few enough of them.
-/

namespace Argumentation.Session

open Argumentation.Sat (Literal Clause Engine Solver)

variable {α : Type}

/-- The clauses and the assumptions of all calls so far, in order. -/
def received (session : Session α) : List (List Literal) :=
  session.journal.clauses ++ session.journal.calls

/-- All that was sent is about the first variables. -/
def Within (session : Session α) (count : Nat) : Prop :=
  forall literals, literals ∈ session.received -> forall literal, literal ∈ literals ->
    0 < literal.var ∧ literal.var <= count

theorem within_iff {session : Session α} {count : Nat} :
    session.Within count ↔
      (forall clause, clause ∈ session.sent -> forall literal, literal ∈ clause ->
        0 < literal.var ∧ literal.var <= count) ∧
      forall call, call ∈ session.journal.calls -> forall literal, literal ∈ call ->
        0 < literal.var ∧ literal.var <= count := by
  simp only [Within, received, List.forall_mem_append, sent]

theorem Numbered.inRange {ledger : Ledger α} {session : Session α}
    (numbered : session.Numbered ledger) {var : Nat} (role : (ledger.role? var).isSome) :
    0 < var ∧ var <= session.variableCount := by
  obtain ⟨role, found⟩ := Option.isSome_iff_exists.mp role
  rw [numbered.count]
  exact Ledger.bounds found

variable [DecidableEq α]

/-- The clauses of a grounded session are about variables that have a role. -/
theorem Grounded.within {ledger : Ledger α} {rules : List (Rule α)} {pending : List (Atom α)}
    {session : Session α} (grounded : session.Grounded ledger rules pending)
    (calls : forall call, call ∈ session.journal.calls -> forall literal, literal ∈ call ->
      0 < literal.var ∧ literal.var <= session.variableCount) :
    session.Within session.variableCount :=
  within_iff.mpr ⟨fun clause member literal inside =>
    grounded.toNumbered.inRange (grounded.inUse clause member literal inside), calls⟩

section Assumptions

variable {ledger : Ledger α} {session : Session α}

theorem Settled.assumptions_inRange (settled : session.Settled ledger) (literal : Literal)
    (member : literal ∈ session.assumptions) :
    0 < literal.var ∧ literal.var <= session.variableCount := by
  refine settled.toNumbered.inRange ?_
  rcases List.mem_append.mp member with selector | value
  · obtain ⟨var, current, rfl⟩ := List.mem_map.mp selector
    obtain ⟨owner, role⟩ := settled.toSelected.role_of_mem current
    exact Option.isSome_iff_exists.mpr ⟨_, role⟩
  · obtain ⟨flag, listed, rfl⟩ := List.mem_map.mp value
    have row : (flag.element.flagAtom, flag.var) ∈ session.table :=
      List.mem_append_left _ (List.mem_map.mpr ⟨flag, List.mem_reverse.mp listed, rfl⟩)
    exact Option.isSome_iff_exists.mpr ⟨_, settled.role _ _ row⟩

theorem Settled.assumed_inRange (settled : session.Settled ledger) {atoms : List (Atom α)}
    {literals : List Literal} (assumed : session.assumedLiterals atoms = .ok literals)
    (literal : Literal) (member : literal ∈ literals) :
    0 < literal.var ∧ literal.var <= session.variableCount := by
  have known := isSome_of_assumedLiterals assumed
  rw [assumedLiterals_of_known known, Except.ok.injEq] at assumed
  subst assumed
  obtain ⟨atom, listed, rfl⟩ := List.mem_map.mp member
  obtain ⟨var, found⟩ := Option.isSome_iff_exists.mp (known atom listed)
  have role := settled.toNumbered.role_of_varOf? found
  rw [number_of_varOf? found]
  exact settled.toNumbered.inRange (Option.isSome_iff_exists.mpr ⟨_, role⟩)

end Assumptions

section Bursts

/-- The session in which a rule has its variables and has sent nothing yet. -/
def register (session : Session α) : Rule α -> Session α
  | .external _ => session
  | .declare atom | .display atom => (session.atomVariable atom).2
  | .derive head body => ((session.atomVariable head).2.bodyLiterals body).2.fresh.2
  | .constraint body => (session.bodyLiterals body).2

theorem journal_atomVariable (session : Session α) (atom : Atom α) :
    (session.atomVariable atom).2.journal = session.journal := by
  cases found : session.varOf? atom <;> simp [atomVariable, found, fresh]

theorem journal_bodyLiterals (session : Session α) (body : List (BodyLiteral α)) :
    (session.bodyLiterals body).2.journal = session.journal := by
  induction body generalizing session with
  | nil => rfl
  | cons literal rest ih =>
    have first : (session.bodyLiteral literal).2.journal = session.journal := by
      rw [bodyLiteral_snd, journal_atomVariable]
    exact (ih _).trans first

/-- While a rule draws its variables, it sends nothing. -/
theorem journal_register (session : Session α) (rule : Rule α) :
    (session.register rule).journal = session.journal := by
  cases rule with
  | external atom => rfl
  | declare atom | display atom => exact session.journal_atomVariable atom
  | derive head body =>
    exact (journal_bodyLiterals _ body).trans (session.journal_atomVariable head)
  | constraint body => exact session.journal_bodyLiterals body

/-- While a rule sends its clauses, it draws no variable. -/
theorem variableCount_groundRule (session : Session α) (rule : Rule α) :
    (session.groundRule rule).variableCount = (session.register rule).variableCount := by
  cases rule with
  | external atom | declare atom | constraint body => rfl
  | display atom => exact (frame_display _ _ _).2.2
  | derive head body =>
    rw [groundRule_derive]
    simp [derive, register, addBody, send, sendAll_eq, fresh]

variable [Label α]

/-- The bursts of a request, each with the sessions before it, after the last variable that it draws
and after the last clause or call that it sends. A rule of an accepted batch is one burst, and so is
a renewal of a completion clause; a query is a single burst. -/
inductive Burst (session : Session α) : Request α -> Session α -> Session α -> Session α -> Prop
    where
  | rule {batch done rule rest before} (new : session.batchId? batch.element = none)
      (accepts : session.Accepts batch) (split : batch.rules = done ++ rule :: rest)
      (reached : done.foldl groundRule ((session.announced batch).declared batch) = before) :
      Burst session (.apply batch) before (before.register rule) (before.groundRule rule)
  | renewal {batch done atom rest before} (new : session.batchId? batch.element = none)
      (accepts : session.Accepts batch)
      (split : ((session.announced batch).taken batch).stale = done ++ atom :: rest)
      (reached : done.foldl renewCompletion ((session.announced batch).taken batch) = before) :
      Burst session (.apply batch) before before.fresh.2 (before.renewCompletion atom)
  | enumeration {engine deadline} :
      Burst session (.solve engine deadline) session session.fresh.2
        (session.solve engine deadline).2
  | search {engine atoms} :
      Burst session (.findModel engine atoms) session session (session.findModel engine atoms).2

omit [Label α] in
/-- Renewals make no calls. -/
theorem foldl_renewCompletion_quiet (session : Session α) (atoms : List (Atom α)) :
    let later := atoms.foldl renewCompletion session
    later.journal.calls = session.journal.calls ∧
      session.variableCount <= later.variableCount ∧ later.atomVars = session.atomVars := by
  induction atoms generalizing session with
  | nil => exact ⟨rfl, Nat.le_refl _, rfl⟩
  | cons atom rest ih =>
    obtain ⟨calls, count, atomVars⟩ := ih (session.renewCompletion atom)
    have first : (session.renewCompletion atom).journal.calls = session.journal.calls ∧
        session.variableCount <= (session.renewCompletion atom).variableCount := by
      cases found : session.derived? atom with
      | none => simp [renewCompletion, found]
      | some entry =>
        cases chosen : entry.selector <;>
          simp [renewCompletion, found, chosen, fresh, retire, send, assignSelector, Journal.calls]
    exact ⟨calls.trans first.1, first.2.trans count,
      atomVars.trans (session.atomVars_renewCompletion atom)⟩

end Bursts

section Within

variable {ledger : Ledger α} {session : Session α}

omit [DecidableEq α] in
theorem Within.mono {count more : Nat} (within : session.Within count) (grows : count <= more) :
    session.Within more := fun literals member literal inside =>
  ⟨(within literals member literal inside).1, (within literals member literal inside).2.trans grows⟩

omit [DecidableEq α] in
/-- The calls of an earlier session are about its variables. -/
theorem Within.calls {other : Session α} (within : session.Within session.variableCount)
    (same : other.journal.calls = session.journal.calls)
    (grows : session.variableCount <= other.variableCount) :
    forall call, call ∈ other.journal.calls -> forall literal, literal ∈ call ->
      0 < literal.var ∧ literal.var <= other.variableCount := by
  rw [same]
  exact (within_iff.mp (within.mono grows)).2

/-- What an enumeration adds is about variables in use and its own selector. -/
theorem Settled.within_solve (settled : session.Settled ledger)
    (within : session.Within session.variableCount) (engine : Engine) (deadline : Deadline) :
    (session.solve engine deadline).2.Within (session.variableCount + 1) := by
  obtain ⟨models, made, _, called, count⟩ := session.exists_sent_solve engine deadline
  rw [← count]
  refine (settled.solve engine deadline).toGrounded.within fun call member literal inside => ?_
  rw [count]
  rw [called] at member
  rcases List.mem_append.mp member with old | new
  · exact (within_iff.mp (within.mono (Nat.le_succ _))).2 call old literal inside
  · rw [(List.mem_replicate.mp new).2] at inside
    rcases List.mem_append.mp inside with assumed | own
    · obtain ⟨low, high⟩ := settled.assumptions_inRange literal assumed
      exact ⟨low, high.trans (Nat.le_succ _)⟩
    · rw [List.mem_singleton.mp own]
      exact ⟨Nat.succ_pos _, Nat.le_refl _⟩

/-- What a search adds is about variables in use. -/
theorem Settled.within_findModel (settled : session.Settled ledger)
    (within : session.Within session.variableCount) (engine : Engine) (atoms : List (Atom α)) :
    (session.findModel engine atoms).2.variableCount = session.variableCount ∧
      (session.findModel engine atoms).2.Within session.variableCount := by
  rcases session.findModel_cases engine atoms with same | ⟨literals, assumed, asked⟩
  · rw [same]
    exact ⟨rfl, within⟩
  · rw [asked]
    refine ⟨rfl, within_iff.mpr ⟨?_, fun call member literal inside => ?_⟩⟩
    · rw [sent_ask]
      exact (within_iff.mp within).1
    · rw [calls_ask] at member
      rcases List.mem_append.mp member with old | new
      · exact (within_iff.mp within).2 call old literal inside
      · rw [List.mem_singleton.mp new] at inside
        rcases List.mem_append.mp inside with standing | further
        · exact settled.assumptions_inRange literal standing
        · exact settled.assumed_inRange assumed literal further

variable [Label α]

/-- What some rules of a batch add is about variables in use after them. -/
theorem Settled.within_rules (settled : session.Settled ledger)
    (within : session.Within session.variableCount) {batch : Batch α}
    (new : session.batchId? batch.element = none) (accepts : session.Accepts batch)
    {rules : List (Rule α)} (among : rules ⊆ batch.rules) :
    let later := rules.foldl groundRule ((session.announced batch).declared batch)
    session.variableCount <= later.variableCount ∧
      later.journal.calls = session.journal.calls ∧ later.Within later.variableCount := by
  intro later
  have noted := settled.announced batch
  have draws := (session.draws_announced batch).trans
    (accepts.announced.taken noted.tidy among).2
  obtain ⟨_, grounded⟩ := noted.taken new accepts.announced among
  exact ⟨draws.count, draws.calls, grounded.within (within.calls draws.calls draws.count)⟩

/-- What some renewals add is about variables in use after them. -/
theorem Settled.within_renewals (settled : session.Settled ledger)
    (within : session.Within session.variableCount) {batch : Batch α}
    (new : session.batchId? batch.element = none) (accepts : session.Accepts batch)
    {served pending : List (Atom α)}
    (split : ((session.announced batch).taken batch).stale = served ++ pending) :
    let later := served.foldl renewCompletion ((session.announced batch).taken batch)
    later.Within later.variableCount := by
  intro later
  have noted := settled.announced batch
  obtain ⟨count, calls, _⟩ := settled.within_rules within new accepts (List.Subset.refl _)
  obtain ⟨_, taken⟩ : ∃ ledger, ((session.announced batch).taken batch).Grounded ledger
      (programOf session.batches ++ batch.rules) (served ++ pending) := by
    rw [← split]
    exact noted.taken new accepts.announced (List.Subset.refl _)
  obtain ⟨_, renewed⟩ := taken.foldl_renewCompletion
  obtain ⟨same, grows, _⟩ :=
    foldl_renewCompletion_quiet ((session.announced batch).taken batch) served
  exact renewed.within (within.calls (same.trans calls) (count.trans grows))

/-- An atom that waits for a renewal has an entry. -/
theorem Settled.exists_entry (settled : session.Settled ledger) {batch : Batch α}
    (accepts : session.Accepts batch) {done rest : List (Atom α)} {atom : Atom α}
    (split : ((session.announced batch).taken batch).stale = done ++ atom :: rest) :
    ∃ entry, (done.foldl renewCompletion ((session.announced batch).taken batch)).derived? atom =
      some entry := by
  have tidy := (accepts.announced.taken (settled.announced batch).tidy (List.Subset.refl _)).1
  have waits := tidy.waits atom (by
    rw [← Session.taken, split]
    simp)
  obtain ⟨_, _, same⟩ := foldl_renewCompletion_quiet ((session.announced batch).taken batch) done
  rw [← Option.isSome_iff_exists, isSome_derived?_iff, same]
  exact waits

/-- A burst draws its variables, then sends, and all that was sent is about variables drawn. -/
theorem Settled.burst (settled : session.Settled ledger)
    (within : session.Within session.variableCount) {request : Request α}
    {before drawn later : Session α} (burst : session.Burst request before drawn later) :
    drawn.received = before.received ∧ later.variableCount = drawn.variableCount ∧
      later.Within drawn.variableCount := by
  cases burst with
  | @rule batch done rule rest before new accepts split reached =>
    have journal := before.journal_register rule
    have count := before.variableCount_groundRule rule
    have among : done ++ [rule] ⊆ batch.rules := by simp [split]
    obtain ⟨_, _, grounded⟩ := settled.within_rules within new accepts among
    rw [List.foldl_append, reached] at grounded
    exact ⟨by simp only [received, journal], count, count ▸ grounded⟩
  | @renewal batch done atom rest before new accepts split reached =>
    obtain ⟨entry, found⟩ := settled.exists_entry accepts split
    rw [reached] at found
    have count := variableCount_renewCompletion found
    have renewed := settled.within_renewals within new accepts
      (split.trans (List.append_cons done atom rest))
    rw [List.foldl_append, reached] at renewed
    have drawn : (before.renewCompletion atom).Within (before.variableCount + 1) :=
      count ▸ renewed
    exact ⟨rfl, count, drawn⟩
  | @enumeration engine deadline =>
    obtain ⟨_, _, _, _, count⟩ := session.exists_sent_solve engine deadline
    exact ⟨rfl, count, settled.within_solve within engine deadline⟩
  | @search engine atoms =>
    obtain ⟨count, searched⟩ := settled.within_findModel within engine atoms
    exact ⟨rfl, count, searched⟩

theorem Settled.within_perform (settled : session.Settled ledger)
    (within : session.Within session.variableCount) (request : Request α) :
    (session.perform request).Within (session.perform request).variableCount := by
  cases request with
  | apply batch =>
    rcases session.apply_cases batch with ⟨new, accepts⟩ | same | ⟨level, text, noted⟩
    · have renewed := settled.within_renewals within new accepts (List.append_nil _).symm
      rw [Session.perform, apply_of_accepts new accepts]
      exact renewed
    · rw [Session.perform, same]
      exact within
    · have draws := session.draws_note level text
      rw [Session.perform, noted]
      exact (settled.note level text).toGrounded.within (within.calls draws.calls draws.count)
  | setFlag element value =>
    have draws := session.draws_setFlag element value
    exact (settled.setFlag element value).toGrounded.within (within.calls draws.calls draws.count)
  | solve engine deadline =>
    obtain ⟨_, _, _, _, count⟩ := session.exists_sent_solve engine deadline
    exact count ▸ settled.within_solve within engine deadline
  | findModel engine atoms =>
    obtain ⟨count, searched⟩ := settled.within_findModel within engine atoms
    exact count ▸ searched

end Within

section Completeness

variable [Label α] {session : Session α}

omit [DecidableEq α] [Label α] in
/-- What holds at the end of some steps held at their start, or one of them made it so. -/
theorem foldl_cases {β : Type} {step : Session α -> β -> Session α} (holds : Session α -> Prop)
    {items : List β} {start : Session α} (final : holds (items.foldl step start)) :
    holds start ∨ ∃ done item rest, items = done ++ item :: rest ∧
      ¬ holds (done.foldl step start) ∧ holds (step (done.foldl step start) item) := by
  induction items generalizing start with
  | nil => exact .inl final
  | cons item rest ih =>
    rcases ih final with first | ⟨done, other, after, rfl, before, later⟩
    · by_cases already : holds start
      · exact .inl already
      · exact .inr ⟨[], item, rest, rfl, already, first⟩
    · exact .inr ⟨item :: done, other, after, rfl, before, later⟩

omit [DecidableEq α] [Label α] in
theorem received_note (session : Session α) (level : Level) (text : String) :
    (session.note level text).received = session.received := by
  simp [received, note, Journal.clauses, Journal.calls]

/-- All that a request sends is sent in one of its bursts. -/
theorem exists_burst {request : Request α} {literals : List Literal}
    (member : literals ∈ (session.perform request).received) :
    literals ∈ session.received ∨ ∃ before drawn later,
      session.Burst request before drawn later ∧ literals ∉ before.received ∧
        literals ∈ later.received := by
  by_cases old : literals ∈ session.received
  · exact .inl old
  refine .inr ?_
  cases request with
  | apply batch =>
    have announced : (session.announced batch).received = session.received :=
      (received_note _ _ _).trans (session.received_note _ _)
    have declared : ((session.announced batch).declared batch).received = session.received := by
      rw [← announced, received, Session.declared, (frame_declareFlags _ _ _).2]
      rfl
    rcases session.apply_cases batch with ⟨new, accepts⟩ | same | ⟨level, text, noted⟩
    · rw [Session.perform, apply_of_accepts new accepts] at member
      -- It was sent by a renewal or by a rule before all renewals: declarations send nothing.
      have final : literals ∈ (((session.announced batch).taken batch).stale.foldl renewCompletion
          ((session.announced batch).taken batch)).received := member
      rcases foldl_cases (fun stage => literals ∈ stage.received) final with
        taken | ⟨done, atom, rest, split, before, later⟩
      · rcases foldl_cases (fun stage => literals ∈ stage.received) taken with
          first | ⟨done, rule, rest, split, before, later⟩
        · exact absurd (declared ▸ first) old
        · exact ⟨_, _, _, .rule new accepts split rfl, before, later⟩
      · exact ⟨_, _, _, .renewal new accepts split rfl, before, later⟩
    · rw [Session.perform, same] at member
      exact absurd member old
    · rw [Session.perform, noted, received_note] at member
      exact absurd member old
  | setFlag element value =>
    obtain ⟨_, _, _, sent, calls⟩ := session.frame_setFlag element value
    have same : (session.setFlag element value).2.received = session.received := by
      rw [received, ← Session.sent, sent, calls, Session.sent, received]
    exact absurd (same ▸ member) old
  | solve engine deadline => exact ⟨_, _, _, .enumeration, old, member⟩
  | findModel engine atoms => exact ⟨_, _, _, .search, old, member⟩

end Completeness

section Runs

variable [Label α]

theorem within_run (requests : List (Request α)) :
    (run requests).Within (run requests).variableCount := by
  induction requests using List.reverseRecOn with
  | nil => simp [run, empty, Within, received, Journal.clauses, Journal.calls]
  | append_singleton requests request ih =>
    obtain ⟨ledger, settled⟩ := settled_run requests
    rw [run_append_singleton]
    exact settled.within_perform ih request

/-- What a run took out of use stays so. -/
theorem subset_gathered (give : Session α -> Request α -> List Nat)
    (requests more : List (Request α)) :
    gathered give empty requests ⊆ gathered give empty (requests ++ more) := by
  rw [gathered_append]
  exact List.subset_append_left _ _

/-- After any run, each variable up to the count has one use: it is that of a flag, of a derived
atom, of a body, of a current or retired selector of a completion clause or of a past enumeration.
Distinct atoms have distinct variables. Whatever is asked next, each burst sends clauses and makes
calls about variables that were drawn before. What is out of use is never used again, and as long as
there are fewer than `2 ^ 31` variables, the engine reads all that is sent as it is. -/
theorem variables_run (requests : List (Request α)) :
    let session := run requests
    let past := retired requests ++ enumerations requests
    (session.uses ++ past).Perm (List.range' 1 session.variableCount) ∧
      (forall first second var, session.varOf? first = some var ->
        session.varOf? second = some var -> first = second) ∧
      session.Within session.variableCount ∧
      (forall request before drawn later, session.Burst request before drawn later ->
        drawn.received = before.received ∧ later.variableCount = drawn.variableCount ∧
          later.Within drawn.variableCount) ∧
      (forall request literals, literals ∈ (session.perform request).received ->
        literals ∈ session.received ∨ ∃ before drawn later,
          session.Burst request before drawn later ∧ literals ∉ before.received ∧
            literals ∈ later.received) ∧
      (forall more selector, selector ∈ past ->
        selector ∈ retired (requests ++ more) ++ enumerations (requests ++ more) ∧
          selector ∉ (run (requests ++ more)).uses) ∧
      (session.variableCount < 2 ^ 31 -> forall literals, literals ∈ session.received ->
        Solver.narrowAll? (literals.map Literal.code) = some literals) := by
  intro session past
  obtain ⟨ledger, settled⟩ := settled_run requests
  have within := within_run requests
  refine ⟨(uses_run requests).1, fun first second var left right => ?_, within,
    fun request before drawn later burst => settled.burst within burst,
    fun request literals member => exists_burst member,
    fun more selector member => ?_, fun few literals listed => ?_⟩
  · have role := settled.toNumbered.role_of_varOf? left
    rw [settled.toNumbered.role_of_varOf? right] at role
    simpa using role.symm
  · have still : selector ∈ retired (requests ++ more) ++ enumerations (requests ++ more) :=
      List.mem_append.mpr ((List.mem_append.mp member).imp
        (fun gone => subset_gathered _ requests more gone)
        (fun gone => subset_gathered _ requests more gone))
    have distinct : ((run (requests ++ more)).uses ++ _).Nodup :=
      (uses_run (requests ++ more)).1.nodup_iff.mpr List.nodup_range'
    exact ⟨still, fun used => (List.nodup_append.mp distinct).2.2 selector used selector still rfl⟩
  · refine Solver.narrowAll?_of_isNarrow fun literal member => ?_
    obtain ⟨low, high⟩ := within literals listed literal member
    exact ⟨low, high.trans_lt few⟩

end Runs

end Argumentation.Session
