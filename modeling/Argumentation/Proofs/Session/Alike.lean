import Argumentation.Proofs.Framework.Construction
import Argumentation.Proofs.Session.Admission
import Argumentation.Proofs.Session.Independence
import Argumentation.Proofs.Session.Vocabulary
import Mathlib.Data.Multiset.Defs

/-!
# Sessions that answer alike

All answers of a session depend on its batches and on the values of its flags, besides the choice of
models that its engine makes. Queries change neither, so a run answers like the one in which nothing
was asked (`Session.alike_run`).
-/

namespace Argumentation

/-- The number of extensions found when the time is up, if it is up before one of the calls that find
some further extensions or before the call that finds no more. -/
def Deadline.cutoff? (deadline : Deadline) (found further : Nat) : Option Nat :=
  (List.range' found (further + 1)).find? deadline

namespace Session

open Argumentation.Sat (Literal Engine)

variable {α : Type}

section Deadlines

variable {engine : Engine} {deadline : Deadline}

/-- Before the time is up, an enumeration goes on as it does without a deadline. -/
theorem collect_deadline {selector : Nat} {assumptions : List Literal} {calls found : Nat}
    {session : Session α} {extensions : List (Extension α)}
    (listed : (collect engine .never selector assumptions calls found session).1 =
      .ok extensions) :
    (collect engine deadline selector assumptions calls found session).1 =
      match deadline.cutoff? found extensions.length with
      | some found => .error (.error (.solveTimeout found))
      | none => .ok extensions := by
  induction calls generalizing found session extensions with
  | zero => cases listed
  | succ calls ih =>
    cases passed : deadline found with
    | true => simp [collect, passed, Deadline.cutoff?, List.range'_succ]
    | false =>
      have later : forall further, deadline.cutoff? found (further + 1) =
          deadline.cutoff? (found + 1) further := by
        simp [Deadline.cutoff?, List.range'_succ, passed]
      cases answer : engine.answer session.journal.transcript assumptions with
      | satisfiable model =>
        rw [collect_satisfiable rfl answer] at listed
        obtain ⟨others, rest, rfl⟩ := map_eq_ok.mp listed
        simp only [collect_satisfiable passed answer, ih rest, List.length_cons, later]
        split <;> rfl
      | unsatisfiable =>
        have none : extensions = [] := by
          simpa [collect, Deadline.never, ask, answer, eq_comm] using listed
        simp [collect, passed, ask, answer, none, Deadline.cutoff?]
      | unknown => simp [collect, Deadline.never, ask, answer] at listed

/-- Before the time is up, an enumeration lists what it lists without a deadline. -/
theorem solve_deadline {session : Session α} {extensions : List (Extension α)}
    (listed : (session.solve engine .never).1 = .ok extensions) :
    (session.solve engine deadline).1 =
      match deadline.cutoff? 0 extensions.length with
      | some found => .error (.error (.solveTimeout found))
      | none => .ok extensions := by
  have collected : (collect engine .never session.fresh.1
      (session.assumptions ++ [.pos session.fresh.1]) (session.callBound engine) 0
      session.fresh.2).1 = .ok extensions := listed
  exact collect_deadline collected

end Deadlines

variable [DecidableEq α]

/-- Two sessions with the same batches and the same values of flags. -/
structure Alike (session other : Session α) : Prop where
  batches : other.batches = session.batches
  values : forall element, other.flagValue? element = session.flagValue? element

namespace Alike

variable {session other third : Session α} {ledger later : Ledger α}

theorem refl (session : Session α) : session.Alike session :=
  ⟨rfl, fun _ => rfl⟩

theorem symm (alike : session.Alike other) : other.Alike session :=
  ⟨alike.batches.symm, fun element => (alike.values element).symm⟩

theorem trans (early : session.Alike other) (late : other.Alike third) : session.Alike third :=
  ⟨late.batches.trans early.batches, fun element =>
    (late.values element).trans (early.values element)⟩

theorem of_keeps (keeps : session.Keeps other) : session.Alike other :=
  ⟨keeps.batches, flagValue?_congr keeps.flags⟩

theorem raised (alike : session.Alike other) : other.raised = session.raised := by
  funext element
  rw [Session.raised, alike.values, Session.raised]

theorem batchId? (alike : session.Alike other) (element : Element α) :
    other.batchId? element = session.batchId? element := by
  simp only [Session.batchId?, alike.batches]

/-- A batch passes the check of both sessions, or has the same fault in both. -/
theorem check (alike : session.Alike other) (settled : session.Settled ledger)
    (also : other.Settled later) (batch : Batch α) : other.check batch = session.check batch := by
  have endpoint : other.missingEndpoint? batch.element =
      session.missingEndpoint? batch.element := by
    rw [missingEndpoint?_eq, missingEndpoint?_eq, alike.batches]
  have unknown : forall atom : Atom α, (atom.isStructural && atom ≠ batch.element.flagAtom &&
      (other.varOf? atom).isNone) = (atom.isStructural && atom ≠ batch.element.flagAtom &&
      (session.varOf? atom).isNone) := by
    intro atom
    cases structural : atom.isStructural with
    | false => rfl
    | true =>
      have same : (other.varOf? atom).isSome = (session.varOf? atom).isSome := by
        rw [Bool.eq_iff_iff, also.isSome_varOf?_structural structural,
          settled.isSome_varOf?_structural structural, alike.batches]
      rw [← Option.not_isSome, ← Option.not_isSome, same]
  have fault : other.ruleFault? batch.element.flagAtom =
      session.ruleFault? batch.element.flagAtom := by
    funext rule
    simp only [ruleFault?, unknownExternal?, unknown]
  simp only [Session.check, batchFault?, endpoint, fault]

theorem accepts_iff (alike : session.Alike other) (settled : session.Settled ledger)
    (also : other.Settled later) (batch : Batch α) :
    other.Accepts batch ↔ session.Accepts batch := by
  rw [← check_eq_ok, ← check_eq_ok, alike.check settled also]

variable [Label α]

/-- A batch is answered alike. -/
theorem apply_fst (alike : session.Alike other) (settled : session.Settled ledger)
    (also : other.Settled later) (batch : Batch α) :
    (other.apply batch).1 = (session.apply batch).1 := by
  simp only [Session.apply, alike.batchId?, alike.batches, alike.check settled also, batchCount]
  cases session.batchId? batch.element with
  | some id =>
    by_cases known : session.batches[id]? = some batch <;> simp [known]
  | none => cases session.check batch <;> rfl

theorem apply (alike : session.Alike other) (settled : session.Settled ledger)
    (also : other.Settled later) (batch : Batch α) :
    (session.apply batch).2.Alike (other.apply batch).2 := by
  by_cases taken : session.batchId? batch.element = none ∧ session.Accepts batch
  · obtain ⟨new, accepts⟩ := taken
    have newToo : other.batchId? batch.element = none := (alike.batchId? _).trans new
    have acceptsToo := (alike.accepts_iff settled also batch).mpr accepts
    refine ⟨?_, fun element => ?_⟩
    · rw [batches_apply new accepts, batches_apply newToo acceptsToo, alike.batches]
    · rw [flagValue?_apply new accepts, flagValue?_apply newToo acceptsToo, alike.values]
  · have takenToo : ¬ (other.batchId? batch.element = none ∧ other.Accepts batch) := by
      rwa [alike.batchId?, alike.accepts_iff settled also]
    obtain ⟨flags, batches⟩ := frame_apply taken
    obtain ⟨flagsToo, batchesToo⟩ := frame_apply takenToo
    refine ⟨?_, fun element => ?_⟩
    · rw [batchesToo, batches, alike.batches]
    · rw [flagValue?_congr flagsToo, flagValue?_congr flags, alike.values]

theorem setFlag (alike : session.Alike other) (element : Element α) (value : Bool) :
    (session.setFlag element value).2.Alike (other.setFlag element value).2 := by
  refine ⟨?_, fun element => ?_⟩
  · rw [batches_setFlag, batches_setFlag, alike.batches]
  · rw [flagValue?_setFlag, flagValue?_setFlag, alike.values]

theorem setFlag_fst (alike : session.Alike other) (element : Element α) (value : Bool) :
    (other.setFlag element value).1 = (session.setFlag element value).1 := by
  have same := alike.values element
  cases known : session.flagValue? element with
  | none => rw [setFlag_of_unknown known, setFlag_of_unknown (same.trans known)]
  | some old =>
    rw [setFlag_of_known (by simp [same, known]), setFlag_of_known (by simp [known])]

end Alike

/-- The search for a model starts with a refusal of the first atom that the session has not seen;
the engine is not asked. -/
theorem findModel_of_unknown {session : Session α} {before after : List (Atom α)} {atom : Atom α}
    (known : forall other, other ∈ before -> (session.varOf? other).isSome)
    (unknown : session.varOf? atom = none) (engine : Engine) :
    session.findModel engine (before ++ atom :: after) =
      (.error (.unknownElement atom), session) := by
  rw [findModel, assumedLiterals_of_unknown known unknown]

section Settled

variable {session other : Session α} {ledger later : Ledger α}

/-- The search for a model in which some known atoms hold finds one exactly when there is one. -/
theorem Settled.findModel_isSome (settled : session.Settled ledger) {engine : Engine}
    (sound : engine.Sound) (complete : engine.Complete) {atoms : List (Atom α)}
    (known : forall atom, atom ∈ atoms -> (session.varOf? atom).isSome) :
    ∃ found, (session.findModel engine atoms).1 = .ok found ∧
      (found.isSome = true ↔
        ∃ model, IsCompletionModel (programOf session.batches) session.raised model ∧
          forall atom, atom ∈ atoms -> model atom = true) := by
  obtain ⟨found, answered, some, none⟩ := settled.findModel_exact sound complete known
  refine ⟨found, answered, ?_⟩
  cases found with
  | none => simpa using none
  | some extension =>
    obtain ⟨model, completion, holds, _⟩ := some extension rfl
    exact iff_of_true rfl ⟨model, completion, holds⟩

/-- Alike sessions list the same extensions, or are cut off at the same number of them. -/
theorem Alike.solve (alike : session.Alike other) (settled : session.Settled ledger)
    (also : other.Settled later) {first second : Engine} (sound : first.Sound ∧ second.Sound)
    (complete : first.Complete ∧ second.Complete) (deadline : Deadline) :
    (other.solve second deadline).1.map Multiset.ofList =
      (session.solve first deadline).1.map Multiset.ofList := by
  obtain ⟨extensions, others, solved, solvedToo, _, perm⟩ :=
    settled.solve_perm also alike.batches alike.raised sound complete
  rw [solve_deadline solved, solve_deadline solvedToo, perm.length_eq]
  cases deadline.cutoff? 0 others.length with
  | some found => rfl
  | none => exact congrArg Except.ok (Multiset.coe_eq_coe.mpr perm.symm)

/-- Alike sessions find models under the same assumptions. -/
theorem Alike.findModel (alike : session.Alike other) (settled : session.Settled ledger)
    (also : other.Settled later)
    (known : forall atom, (other.varOf? atom).isSome ↔ (session.varOf? atom).isSome)
    {first second : Engine} (sound : first.Sound ∧ second.Sound)
    (complete : first.Complete ∧ second.Complete) (atoms : List (Atom α)) :
    (other.findModel second atoms).1.map Option.isSome =
      (session.findModel first atoms).1.map Option.isSome := by
  cases unseen : atoms.find? fun atom => (session.varOf? atom).isNone with
  | some atom =>
    obtain ⟨unknown, before, after, rfl, seen⟩ := List.find?_eq_some_iff_append.mp unseen
    have knownBefore : forall other, other ∈ before -> (session.varOf? other).isSome :=
      fun other member => by simpa [Option.isSome_iff_ne_none] using seen other member
    have unknownToo : other.varOf? atom = none := by
      rw [← Option.not_isSome_iff_eq_none, known, Option.not_isSome_iff_eq_none]
      simpa using unknown
    rw [findModel_of_unknown knownBefore (by simpa using unknown),
      findModel_of_unknown (fun atom member => (known atom).mpr (knownBefore atom member))
        unknownToo]
  | none =>
    have knownAll : forall atom, atom ∈ atoms -> (session.varOf? atom).isSome := by
      simpa [List.find?_eq_none, Option.isSome_iff_ne_none] using unseen
    obtain ⟨found, answered, exact⟩ := settled.findModel_isSome sound.1 complete.1 knownAll
    obtain ⟨foundToo, answeredToo, exactToo⟩ := also.findModel_isSome sound.2 complete.2
      fun atom member => (known atom).mpr (knownAll atom member)
    rw [alike.batches, alike.raised] at exactToo
    rw [answered, answeredToo]
    exact congrArg Except.ok (Bool.eq_iff_iff.mpr (exactToo.trans exact.symm))

end Settled

section Runs

variable [Label α]

/-- A run answers like its requests that are no queries. -/
theorem alike_filter (requests : List (Request α)) :
    (run (requests.filter Request.operates)).Alike (run requests) := by
  induction requests using List.reverseRecOn with
  | nil => exact .refl _
  | append_singleton requests request ih =>
    obtain ⟨_, settled⟩ := settled_run (requests.filter Request.operates)
    obtain ⟨_, also⟩ := settled_run requests
    rw [List.filter_append, List.filter_singleton, run_append_singleton]
    cases operates : request.operates with
    | false =>
      rw [cond_false, List.append_nil]
      exact ih.trans (.of_keeps (keeps_perform operates _))
    | true =>
      rw [cond_true, run_append_singleton]
      cases request with
      | apply batch => exact ih.apply settled also batch
      | setFlag element value => exact ih.setFlag element value
      | solve engine deadline | findModel engine atoms => cases operates

/-- Queries leave no trace in a run, wherever they are made. -/
theorem alike_run {requests others : List (Request α)}
    (same : requests.filter Request.operates = others.filter Request.operates) :
    (run requests).Alike (run others) :=
  (alike_filter requests).symm.trans (same ▸ alike_filter others)

/-- Two sessions give the same answers to the next request, whatever it is. An enumeration lists the
same extensions in some order, and a search may find another model. -/
structure AnswersAlike (session other : Session α) : Prop where
  apply : forall batch, (other.apply batch).1 = (session.apply batch).1
  setFlag : forall element value,
    (other.setFlag element value).1 = (session.setFlag element value).1
  flag : forall element, other.flag element = session.flag element
  batchId? : forall element, other.batchId? element = session.batchId? element
  batchCount : other.batchCount = session.batchCount
  solve : forall {first second : Engine}, first.Sound ∧ second.Sound ->
    first.Complete ∧ second.Complete -> forall deadline,
      (other.solve second deadline).1.map Multiset.ofList =
        (session.solve first deadline).1.map Multiset.ofList
  findModel : forall {first second : Engine}, first.Sound ∧ second.Sound ->
    first.Complete ∧ second.Complete -> forall atoms,
      (other.findModel second atoms).1.map Option.isSome =
        (session.findModel first atoms).1.map Option.isSome

theorem Alike.answersAlike {requests others : List (Request α)}
    (alike : (run requests).Alike (run others)) : AnswersAlike (run requests) (run others) := by
  obtain ⟨_, settled⟩ := settled_run requests
  obtain ⟨_, also⟩ := settled_run others
  exact
    { apply := alike.apply_fst settled also
      setFlag := alike.setFlag_fst
      flag := fun element => by rw [flag_eq, alike.values, ← flag_eq]
      batchId? := alike.batchId?
      batchCount := congrArg List.length alike.batches
      solve := alike.solve settled also
      findModel := alike.findModel settled also fun atom => by
        rw [isSome_varOf?_run, isSome_varOf?_run, alike.batches] }

end Runs

end Session

end Argumentation
