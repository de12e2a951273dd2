import Argumentation.Proofs.Session.Queries
import Mathlib.Data.List.Sublists
import Mathlib.Data.Set.Card

/-!
# Enumeration

What a sound and complete engine makes of an enumeration. The answers of a session are the lists of
visible labels that the valuations allowed by its clauses and by some assumptions make true. Each
call finds one of them and excludes it, so the enumeration lists each answer once and ends.
-/

namespace Argumentation.Session

open Argumentation.Sat (Literal Clause Engine Assignment)

variable {α : Type}

/-- A valuation that makes the clauses sent and some assumptions true. -/
structure Allows (session : Session α) (assumptions : List Literal) (valuation : Nat -> Bool) :
    Prop where
  clauses : forall clause, clause ∈ session.sent -> clause.holds valuation
  assumed : forall literal, literal ∈ assumptions -> literal.holds valuation

/-- The visible labels that a valuation makes true. -/
def labelsOf (session : Session α) (valuation : Nat -> Bool) : Extension α :=
  (session.shown.filter fun entry => valuation entry.2).map Prod.fst

/-- The lists of visible labels that the allowed valuations make true. -/
def answers (session : Session α) (assumptions : List Literal) : Set (Extension α) :=
  { extension | ∃ valuation, session.Allows assumptions valuation ∧
      session.labelsOf valuation = extension }

/-- Only the clauses and the visible labels matter. -/
theorem answers_congr {session other : Session α} (sent : other.sent = session.sent)
    (shown : other.shown = session.shown) (assumptions : List Literal) :
    other.answers assumptions = session.answers assumptions := by
  have allows : forall valuation, other.Allows assumptions valuation ↔
      session.Allows assumptions valuation := by
    intro valuation
    constructor
    · rintro ⟨clauses, assumed⟩
      exact ⟨sent ▸ clauses, assumed⟩
    · rintro ⟨clauses, assumed⟩
      exact ⟨sent ▸ clauses, assumed⟩
  simp only [answers, labelsOf, shown, allows]

/-- The valuation of an assignment: open variables are false. -/
def valuationOf (model : Assignment) (var : Nat) : Bool :=
  model.valueOf var == some true

theorem extension_eq (session : Session α) (model : Assignment) :
    session.extension model = session.labelsOf (valuationOf model) := rfl

theorem holds_of_makesTrue {model : Assignment} {literal : Literal}
    (made : model.makesTrue literal = true) : literal.holds (valuationOf model) = true := by
  simp only [Assignment.makesTrue, decide_eq_true_eq] at made
  cases positive : literal.positive <;> simp [Literal.holds, valuationOf, made, positive]

/-- The model of a sound answer is an allowed valuation. -/
theorem allows_of_sound {engine : Engine} (sound : engine.Sound) {session : Session α}
    {assumptions : List Literal} {model : Assignment}
    (answer : engine.answer session.journal.transcript assumptions = .satisfiable model) :
    session.Allows assumptions (valuationOf model) := by
  obtain ⟨clauses, assumed⟩ := sound _ _ _ answer
  refine ⟨fun clause member => ?_,
    fun literal member => holds_of_makesTrue (assumed literal member)⟩
  obtain ⟨literal, inside, made⟩ := List.any_eq_true.mp (clauses clause member)
  exact List.any_eq_true.mpr ⟨literal, inside, holds_of_makesTrue made⟩

/-- No valuation is allowed when a complete engine finds none. -/
theorem not_allows_of_complete {engine : Engine} (complete : engine.Complete)
    {session : Session α} {assumptions : List Literal}
    (answer : engine.answer session.journal.transcript assumptions = .unsatisfiable)
    (valuation : Nat -> Bool) : ¬ session.Allows assumptions valuation := by
  intro allows
  exact (complete _ _).2 answer valuation ⟨allows.clauses, allows.assumed⟩

/-- Visible labels are told apart by the values of their variables. -/
theorem labelsOf_eq_iff {session : Session α} (distinct : (session.shown.map Prod.fst).Nodup)
    (left right : Nat -> Bool) :
    session.labelsOf left = session.labelsOf right ↔
      forall entry, entry ∈ session.shown -> left entry.2 = right entry.2 := by
  have mem : forall valuation entry, entry ∈ session.shown ->
      (entry.1 ∈ session.labelsOf valuation ↔ valuation entry.2 = true) := by
    intro valuation entry listed
    simp only [labelsOf, List.mem_map, List.mem_filter]
    constructor
    · rintro ⟨other, ⟨member, value⟩, same⟩
      exact List.inj_on_of_nodup_map distinct member listed same ▸ value
    · exact fun value => ⟨entry, ⟨listed, value⟩, rfl⟩
  constructor
  · intro same entry listed
    rw [Bool.eq_iff_iff, ← mem left entry listed, same, mem right entry listed]
  · intro agree
    rw [labelsOf, labelsOf, List.filter_congr agree]

/-- Under its selector, a blocking clause excludes the extension of the model and nothing else. -/
theorem blockingClause_holds_iff {session : Session α}
    (distinct : (session.shown.map Prod.fst).Nodup) {selector : Nat} {valuation : Nat -> Bool}
    (chosen : valuation selector = true) (model : Assignment) :
    (session.blockingClause selector model).holds valuation = true ↔
      session.labelsOf valuation ≠ session.extension model := by
  have blocks : forall entry : α × Nat,
      Literal.holds valuation ⟨entry.2, model.valueOf entry.2 != some true⟩ = true ↔
        valuation entry.2 ≠ valuationOf model entry.2 := by
    intro entry
    simp only [Literal.holds, valuationOf, bne, beq_iff_eq]
    cases valuation entry.2 <;> cases model.valueOf entry.2 == some true <;> simp
  have guard : Literal.holds valuation (.neg selector) = false := by
    simp [Literal.holds, Literal.neg, chosen]
  rw [extension_eq, Ne, labelsOf_eq_iff distinct, blockingClause, Clause.holds_cons, guard,
    Bool.false_or, Clause.holds, List.any_eq_true]
  constructor
  · rintro ⟨literal, member, holds⟩ agree
    obtain ⟨entry, listed, rfl⟩ := List.mem_map.mp member
    exact (blocks entry).mp holds (agree entry listed)
  · intro differs
    simp only [not_forall] at differs
    obtain ⟨entry, listed, different⟩ := differs
    exact ⟨_, List.mem_map.mpr ⟨entry, listed, rfl⟩, (blocks entry).mpr different⟩

/-- There are at most as many answers as sets of visible labels. -/
theorem finite_answers (session : Session α) (assumptions : List Literal) :
    (session.answers assumptions).Finite ∧
      (session.answers assumptions).ncard <= 2 ^ session.shown.length := by
  classical
  have inside : session.answers assumptions ⊆
      ((session.shown.map Prod.fst).sublists.toFinset : Set (Extension α)) := by
    rintro extension ⟨valuation, _, rfl⟩
    simpa [labelsOf] using List.filter_sublist.map Prod.fst
  refine ⟨(Finset.finite_toSet _).subset inside, ?_⟩
  calc (session.answers assumptions).ncard
      <= ((session.shown.map Prod.fst).sublists.toFinset : Set (Extension α)).ncard :=
        Set.ncard_le_ncard inside (Finset.finite_toSet _)
    _ <= (session.shown.map Prod.fst).sublists.length := by
        rw [Set.ncard_coe_finset]
        exact List.toFinset_card_le _
    _ = 2 ^ session.shown.length := by simp

/-- Blocking the extension of a model takes one answer away. -/
theorem answers_block {session : Session α} (distinct : (session.shown.map Prod.fst).Nodup)
    (engine : Engine) {selector : Nat} {assumptions : List Literal}
    (chosen : .pos selector ∈ assumptions) (model : Assignment) :
    ((session.ask engine assumptions).2.send (session.blockingClause selector model)).answers
        assumptions = session.answers assumptions \ {session.extension model} := by
  have sent : ((session.ask engine assumptions).2.send
      (session.blockingClause selector model)).sent =
        session.sent ++ [session.blockingClause selector model] := by
    simp [ask, sent, send, Journal.clauses]
  have selected : forall valuation, session.Allows assumptions valuation ->
      valuation selector = true := fun valuation allows => by
    simpa [Literal.holds, Literal.pos] using allows.assumed _ chosen
  ext extension
  constructor
  · rintro ⟨valuation, ⟨clauses, assumed⟩, rfl⟩
    have allows : session.Allows assumptions valuation :=
      ⟨fun clause member => clauses clause (by simp [sent, member]), assumed⟩
    refine ⟨⟨valuation, allows, rfl⟩, ?_⟩
    exact (blockingClause_holds_iff distinct (selected valuation allows) model).mp
      (clauses _ (by simp [sent]))
  · rintro ⟨⟨valuation, allows, rfl⟩, other⟩
    refine ⟨valuation, ⟨fun clause member => ?_, allows.assumed⟩, rfl⟩
    rw [sent, List.mem_append, List.mem_singleton] at member
    rcases member with old | rfl
    · exact allows.clauses clause old
    · exact (blockingClause_holds_iff distinct (selected valuation allows) model).mpr other

/-- An enumeration goes on after a model with the session that excludes its extension. -/
theorem collect_satisfiable {engine : Engine} {deadline : Deadline} {session : Session α}
    {assumptions : List Literal} {model : Assignment} {found : Nat}
    (inTime : deadline found = false)
    (answer : engine.answer session.journal.transcript assumptions = .satisfiable model)
    (selector calls : Nat) :
    collect engine deadline selector assumptions (calls + 1) found session =
      let rest := collect engine deadline selector assumptions calls (found + 1)
        ((session.ask engine assumptions).2.send (session.blockingClause selector model))
      (rest.1.map (session.extension model :: ·), rest.2) := by
  have asked : session.ask engine assumptions =
      (.satisfiable model, (session.ask engine assumptions).2) := by
    simp [ask, answer]
  have keeps := keeps_collect engine deadline selector assumptions calls (found + 1)
    ((session.ask engine assumptions).2.send (session.blockingClause selector model))
  have clause : (session.ask engine assumptions).2.blockingClause selector model =
      session.blockingClause selector model := rfl
  rw [collect, asked]
  simp only [inTime, Bool.false_eq_true, if_false, clause]
  -- The extension is read off the last session, which shows the same labels.
  congr 2
  funext others
  rw [extension, keeps.shown, extension]
  rfl

/-- With enough calls, an enumeration lists all the answers, each once. -/
theorem collect_complete {engine : Engine} (sound : engine.Sound) (complete : engine.Complete)
    {selector : Nat} {assumptions : List Literal} (chosen : .pos selector ∈ assumptions)
    (calls found : Nat) (session : Session α)
    (distinct : (session.shown.map Prod.fst).Nodup)
    (enough : (session.answers assumptions).ncard < calls) :
    ∃ extensions,
      (collect engine .never selector assumptions calls found session).1 = .ok extensions ∧
        extensions.Nodup ∧
        forall extension, extension ∈ extensions ↔ extension ∈ session.answers assumptions := by
  induction calls generalizing found session with
  | zero => exact absurd enough (Nat.not_lt_zero _)
  | succ calls ih =>
    cases answer : engine.answer session.journal.transcript assumptions with
    | satisfiable model =>
      have member : session.extension model ∈ session.answers assumptions :=
        ⟨_, allows_of_sound sound answer, (extension_eq session model).symm⟩
      have blocked := answers_block distinct engine chosen model
      have fewer : (session.answers assumptions \ {session.extension model}).ncard < calls := by
        have less := Set.ncard_sdiff_singleton_lt_of_mem member
          (session.finite_answers assumptions).1
        omega
      obtain ⟨others, collected, nodup, exact⟩ := ih (found + 1)
        ((session.ask engine assumptions).2.send (session.blockingClause selector model)) distinct
        (blocked ▸ fewer)
      refine ⟨session.extension model :: others, ?_, ?_, fun extension => ?_⟩
      · rw [collect_satisfiable rfl answer]
        exact congrArg (Except.map (session.extension model :: ·)) collected
      · rw [List.nodup_cons, exact, blocked]
        exact ⟨fun again => again.2 rfl, nodup⟩
      · rw [List.mem_cons, exact, blocked]
        by_cases same : extension = session.extension model
        · simp [same, member]
        · simp [same]
    | unsatisfiable =>
      refine ⟨[], by simp [collect, Deadline.never, ask, answer], List.nodup_nil,
        fun extension => ?_⟩
      have none : extension ∉ session.answers assumptions := by
        rintro ⟨valuation, allows, _⟩
        exact not_allows_of_complete complete answer valuation allows
      simp [none]
    | unknown => exact absurd answer (complete _ _).1

/-- An enumeration lists the answers under its selector, each once. -/
theorem solve_complete {engine : Engine} (sound : engine.Sound) (complete : engine.Complete)
    {session : Session α} (distinct : (session.shown.map Prod.fst).Nodup) :
    ∃ extensions, (session.solve engine .never).1 = .ok extensions ∧ extensions.Nodup ∧
      forall extension, extension ∈ extensions ↔
        extension ∈ session.answers
          (session.assumptions ++ [.pos (session.variableCount + 1)]) := by
  have few := (session.finite_answers
    (session.assumptions ++ [.pos (session.variableCount + 1)])).2
  have same : session.fresh.2.answers (session.assumptions ++ [.pos (session.variableCount + 1)]) =
      session.answers (session.assumptions ++ [.pos (session.variableCount + 1)]) :=
    answers_congr (by rfl) (by rfl) _
  have enough :
      (session.answers (session.assumptions ++ [.pos (session.variableCount + 1)])).ncard <
        session.callBound engine := by
    simp only [callBound, Nat.pow_eq]
    omega
  have chosen : Literal.pos (session.variableCount + 1) ∈
      session.assumptions ++ [.pos (session.variableCount + 1)] := by simp
  rw [← same] at enough ⊢
  exact collect_complete sound complete chosen (session.callBound engine) 0 session.fresh.2
    distinct enough

/-- Asking for a model gives one of the answers, if there is one. -/
theorem findModel_complete [DecidableEq α] {engine : Engine} (sound : engine.Sound)
    (complete : engine.Complete) {session : Session α} {atoms : List (Atom α)}
    {literals : List Literal} (known : session.assumedLiterals atoms = .ok literals) :
    ∃ found, (session.findModel engine atoms).1 = .ok found ∧
      (forall extension, found = some extension ->
        extension ∈ session.answers (session.assumptions ++ literals)) ∧
      (found = none -> session.answers (session.assumptions ++ literals) = ∅) := by
  simp only [findModel, known, ask]
  cases answer : engine.answer session.journal.transcript (session.assumptions ++ literals) with
  | satisfiable model =>
    refine ⟨_, rfl, ?_, by simp⟩
    rintro extension ⟨rfl⟩
    exact ⟨_, allows_of_sound sound answer, rfl⟩
  | unsatisfiable =>
    refine ⟨none, rfl, by simp, fun _ => Set.eq_empty_of_forall_notMem ?_⟩
    rintro extension ⟨valuation, allows, _⟩
    exact not_allows_of_complete complete answer valuation allows
  | unknown => exact absurd answer (complete _ _).1

end Argumentation.Session
