import Argumentation.Proofs.Sat.Narrowing
import Argumentation.Proofs.Session.Enumeration
import Argumentation.Sat.Search.Models

/-!
# Calls to a solver

A solver is told clauses and asked for models of them, under assumptions. Each verdict is right for
the literals as the engine reads them, which are the given ones when these are small enough.
-/

namespace Argumentation.Sat

/-- A valuation that makes clauses and assumptions true. -/
def HasModel (clauses : List Clause) (assumptions : List Literal) : Prop :=
  ∃ valuation : Nat -> Bool, (forall clause, clause ∈ clauses -> clause.holds valuation) ∧
    forall literal, literal ∈ assumptions -> literal.holds valuation

/-- A verdict that is right about clauses and assumptions: there is a model exactly when it says so,
and the one that it gives makes them true. -/
structure Verdict.Answers (verdict : Verdict) (clauses : List Clause) (assumptions : List Literal) :
    Prop where
  satisfiable : (∃ model, verdict = .satisfiable model) ↔ HasModel clauses assumptions
  decided : verdict ≠ .unknown
  clauses : forall model, verdict = .satisfiable model ->
    forall clause, clause ∈ clauses -> model.satisfies clause
  assumptions : forall model, verdict = .satisfiable model ->
    forall literal, literal ∈ assumptions -> model.makesTrue literal

/-- A transcript with narrow literals only. -/
structure Transcript.IsNarrow (transcript : Transcript) : Prop where
  clauses : forall clause, clause ∈ transcript.clauses -> forall literal, literal ∈ clause ->
    literal.IsNarrow
  calls : forall call, call ∈ transcript.calls -> forall literal, literal ∈ call -> literal.IsNarrow

theorem Transcript.isNarrow_empty : Transcript.IsNarrow {} :=
  ⟨by simp, by simp⟩

/-- An engine whose verdicts on narrow literals are right. -/
def Engine.IsReliable (engine : Engine) : Prop :=
  forall transcript assumptions, transcript.IsNarrow ->
    (forall literal, literal ∈ assumptions -> literal.IsNarrow) ->
    (engine.answer transcript assumptions).Answers transcript.clauses assumptions

theorem Engine.isReliable_of_complete {engine : Engine} (sound : engine.Sound)
    (complete : engine.Complete) : engine.IsReliable := by
  intro transcript assumptions _ _
  refine ⟨⟨?_, fun ⟨valuation, clauses, assumed⟩ => ?_⟩, (complete _ _).1,
    fun model answered => (sound _ _ _ answered).1, fun model answered => (sound _ _ _ answered).2⟩
  · rintro ⟨model, answered⟩
    obtain ⟨clauses, assumed⟩ := sound _ _ _ answered
    refine ⟨Session.valuationOf model, fun clause member => ?_,
      fun literal member => Session.holds_of_makesTrue (assumed literal member)⟩
    obtain ⟨literal, inside, made⟩ := List.any_eq_true.mp (clauses clause member)
    exact List.any_eq_true.mpr ⟨literal, inside, Session.holds_of_makesTrue made⟩
  · cases answered : engine.answer transcript assumptions with
    | satisfiable model => exact ⟨model, rfl⟩
    | unsatisfiable => exact absurd ⟨clauses, assumed⟩ ((complete _ _).2 answered valuation)
    | unknown => exact absurd answered (complete _ _).1

/-- A call to a solver, with the codes of the literals; a solving call may have no assumptions. -/
inductive Call where
  | addClause (codes : List Int)
  | solve (assumptions : List Int)

/-- The codes that are passed in a call. -/
def Call.codes : Call -> List Int
  | .addClause codes => codes
  | .solve assumptions => assumptions

/-- Carries out calls in order. There are no verdicts if one of the calls is refused. -/
def Solver.run? (engine : Engine) (solver : Solver) : List Call -> Option (List Verdict)
  | [] => some []
  | .addClause codes :: calls => (solver.addClause? codes).bind fun next => next.run? engine calls
  | .solve assumptions :: calls => (solver.solve? engine assumptions).bind fun (verdict, _, next) =>
      (next.run? engine calls).map (verdict :: ·)

/-- Verdicts that are right about the calls to a solver which has some clauses, when codes stand for
the literals that `read` says. -/
inductive Answered (read : Int -> Literal) : List Clause -> List Call -> List Verdict -> Prop
  | done {clauses : List Clause} : Answered read clauses [] []
  | addClause {clauses : List Clause} {codes : List Int} {calls : List Call}
      {verdicts : List Verdict}
      (rest : Answered read (clauses ++ [codes.map read]) calls verdicts) :
      Answered read clauses (.addClause codes :: calls) verdicts
  | solve {clauses : List Clause} {assumptions : List Int} {calls : List Call} {verdict : Verdict}
      {verdicts : List Verdict} (right : verdict.Answers clauses (assumptions.map read))
      (rest : Answered read clauses calls verdicts) :
      Answered read clauses (.solve assumptions :: calls) (verdict :: verdicts)

/-- Only what the codes of the calls stand for matters. -/
theorem Answered.congr {read read' : Int -> Literal} {clauses : List Clause} {calls : List Call}
    {verdicts : List Verdict} (answered : Answered read clauses calls verdicts)
    (same : forall call, call ∈ calls -> forall code, code ∈ call.codes -> read code = read' code) :
    Answered read' clauses calls verdicts := by
  induction answered with
  | done => exact .done
  | addClause rest ih =>
    have first := List.map_congr_left (same _ List.mem_cons_self)
    exact .addClause (first ▸ ih fun call member => same call (List.mem_cons_of_mem _ member))
  | solve right rest ih =>
    have first := List.map_congr_left (same _ List.mem_cons_self)
    exact .solve (first ▸ right) (ih fun call member => same call (List.mem_cons_of_mem _ member))

namespace Solver

variable {engine : Engine}

theorem run?_of_refused (solver : Solver) {calls : List Call} {call : Call} (member : call ∈ calls)
    {code : Int} (inside : code ∈ call.codes) (refused : IsRefused code) :
    solver.run? engine calls = none := by
  induction calls generalizing solver with
  | nil => cases member
  | cons first calls ih =>
    rcases List.mem_cons.mp member with rfl | later
    · cases call with
      | addClause codes =>
        have failed : narrowAll? codes = none := narrowAll?_of_refused inside refused
        simp [run?, addClause?, failed]
      | solve assumptions =>
        have failed : narrowAll? assumptions = none := narrowAll?_of_refused inside refused
        simp [run?, solve?, failed]
    · cases first with
      | addClause codes => simp [run?, ih _ later]
      | solve assumptions => simp [run?, ih _ later]

theorem isNarrow_of_read {codes : List Int} (read : forall code, code ∈ codes -> ¬ IsRefused code)
    (literal : Literal) (member : literal ∈ codes.map Literal.narrowed) : literal.IsNarrow := by
  obtain ⟨code, known, rfl⟩ := List.mem_map.mp member
  exact natAbs_wrapSigned_lt (read code known)

/-- A clause that is read is sent, and the transcript stays narrow. -/
theorem addClause?_of_read {solver : Solver} (narrow : solver.transcript.IsNarrow)
    {codes : List Int} (read : forall code, code ∈ codes -> ¬ IsRefused code) :
    ∃ next, solver.addClause? codes = some next ∧ next.transcript.IsNarrow ∧
      next.transcript.clauses = solver.transcript.clauses ++ [codes.map Literal.narrowed] := by
  refine ⟨_, congrArg (Option.map _) (narrowAll?_of_read read), ⟨?_, narrow.calls⟩, rfl⟩
  exact List.forall_mem_append.mpr
    ⟨narrow.clauses, List.forall_mem_singleton.mpr (isNarrow_of_read read)⟩

/-- Assumptions that are read get a right verdict, and the transcript stays narrow. -/
theorem solve?_of_read (reliable : engine.IsReliable) {solver : Solver}
    (narrow : solver.transcript.IsNarrow) {codes : List Int}
    (read : forall code, code ∈ codes -> ¬ IsRefused code) :
    ∃ verdict announced next, solver.solve? engine codes = some (verdict, announced, next) ∧
      next.transcript.IsNarrow ∧ next.transcript.clauses = solver.transcript.clauses ∧
      verdict.Answers solver.transcript.clauses (codes.map Literal.narrowed) := by
  refine ⟨_, _, _, congrArg (Option.map _) (narrowAll?_of_read read),
    ⟨narrow.clauses, ?_⟩, rfl, reliable _ _ narrow (isNarrow_of_read read)⟩
  exact List.forall_mem_append.mpr
    ⟨narrow.calls, List.forall_mem_singleton.mpr (isNarrow_of_read read)⟩

/-- Calls that are read all get right verdicts. -/
theorem run?_of_read (reliable : engine.IsReliable) {solver : Solver}
    (narrow : solver.transcript.IsNarrow) {calls : List Call}
    (read : forall call, call ∈ calls -> forall code, code ∈ call.codes -> ¬ IsRefused code) :
    ∃ verdicts, solver.run? engine calls = some verdicts ∧
      Answered .narrowed solver.transcript.clauses calls verdicts := by
  induction calls generalizing solver with
  | nil => exact ⟨[], rfl, .done⟩
  | cons call calls ih =>
    have later : forall other, other ∈ calls -> forall code, code ∈ other.codes ->
        ¬ IsRefused code := fun other member => read other (List.mem_cons_of_mem _ member)
    cases call with
    | addClause codes =>
      have here : forall code, code ∈ codes -> ¬ IsRefused code := read _ List.mem_cons_self
      obtain ⟨next, added, narrow', clauses⟩ := addClause?_of_read narrow here
      obtain ⟨verdicts, ran, answered⟩ := ih narrow' later
      exact ⟨verdicts, by rw [run?, added, Option.bind_some, ran], .addClause (clauses ▸ answered)⟩
    | solve assumptions =>
      have here : forall code, code ∈ assumptions -> ¬ IsRefused code := read _ List.mem_cons_self
      obtain ⟨verdict, _, next, solved, narrow', clauses, right⟩ :=
        solve?_of_read reliable narrow here
      obtain ⟨verdicts, ran, answered⟩ := ih narrow' later
      refine ⟨verdict :: verdicts, ?_, .solve right (clauses ▸ answered)⟩
      simp only [run?, solved, Option.bind_some, ran, Option.map_some]

/-- Calls are refused when the engine cannot read a literal. Otherwise their verdicts are right for
the literals that it reads, and so for the given ones if all of them are small. -/
theorem run?_answers (reliable : engine.IsReliable) (listeners : Nat) (calls : List Call) :
    (Solver.run? engine { listeners } calls = none ↔
      ∃ call, call ∈ calls ∧ ∃ code, code ∈ call.codes ∧ IsRefused code) ∧
    (forall verdicts, Solver.run? engine { listeners } calls = some verdicts ->
      Answered .narrowed [] calls verdicts) ∧
    ((forall call, call ∈ calls -> forall code, code ∈ call.codes ->
        code ≠ 0 ∧ code.natAbs < 2 ^ 31) ->
      ∃ verdicts, Solver.run? engine { listeners } calls = some verdicts ∧
        Answered .ofCode [] calls verdicts) := by
  have answers :
      (forall call, call ∈ calls -> forall code, code ∈ call.codes -> ¬ IsRefused code) ->
      ∃ verdicts, Solver.run? engine { listeners } calls = some verdicts ∧
        Answered .narrowed [] calls verdicts :=
    run?_of_read reliable Transcript.isNarrow_empty
  refine ⟨⟨fun failed => Classical.byContradiction fun none => ?_, ?_⟩, fun verdicts ran => ?_,
    fun small => ?_⟩
  · obtain ⟨verdicts, ran, _⟩ := answers fun call member code inside refused =>
      none ⟨call, member, code, inside, refused⟩
    rw [ran] at failed
    cases failed
  · rintro ⟨call, member, code, inside, refused⟩
    exact run?_of_refused _ member inside refused
  · obtain ⟨others, again, answered⟩ := answers fun call member code inside refused => by
      rw [run?_of_refused _ member inside refused] at ran
      cases ran
    rw [ran] at again
    cases again
    exact answered
  · obtain ⟨verdicts, ran, answered⟩ := answers fun call member code inside refused => by
      have := small call member code inside
      unfold IsRefused at refused
      omega
    exact ⟨verdicts, ran, answered.congr fun call member code inside =>
      Literal.narrowed_of_lt (small call member code inside).2⟩

-- The greatest word is read as it is, so the search is asked about the given literals.
theorem run?_answers_greatest :
    let calls := [.addClause [1, -2147483647], .solve [-1], .addClause [2147483647], .solve [-1]]
    ∃ verdicts, Solver.run? .searching { listeners := 2 } calls = some verdicts ∧
      Answered .ofCode [] calls verdicts :=
  (run?_answers (Engine.isReliable_of_complete Engine.searching_sound Engine.searching_complete) 2
    _).2.2 (by decide)

/-- Two variables may be read as one, so that clauses with a model are refuted. A literal may also
be read as zero, which is refused. -/
theorem run?_conflates :
    let calls := [.addClause [4294967297], .addClause [-1], .solve []]
    Solver.run? .searching {} calls = some [.unsatisfiable] ∧
      ¬ Answered .ofCode [] calls [.unsatisfiable] ∧
      Solver.run? .searching {} [.addClause [4294967296]] = none := by
  refine ⟨by cbv, fun answered => ?_, by cbv⟩
  have model : HasModel [[.ofCode 4294967297], [.ofCode (-1)]] [] :=
    ⟨fun var => var == 4294967297, by decide, by decide⟩
  cases answered with
  | addClause rest =>
    cases rest with
    | addClause rest =>
      cases rest with
      | solve right _ =>
        obtain ⟨_, impossible⟩ := right.satisfiable.mpr model
        cases impossible

end Solver

end Argumentation.Sat
