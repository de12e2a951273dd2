import Argumentation.Program.Encoding
import Argumentation.Proofs.Session.Meaning
import Argumentation.Proofs.Session.Runs
import Argumentation.Sat.Search.Models

/-!
# Exact answers

With a sound and complete engine, a session answers with the completion models of its accepted
batches, whatever was requested before: an enumeration lists their projections, each once, and the
search for a model finds one in which the given atoms hold whenever there is one.
-/

namespace Argumentation.Session

open Argumentation.Sat (Literal Engine)

variable {α : Type} [DecidableEq α]

/-- An enumeration lists the projections of the completion models, each once. -/
theorem Settled.solve_exact {ledger : Ledger α} {session : Session α}
    (settled : session.Settled ledger) {engine : Engine} (sound : engine.Sound)
    (complete : engine.Complete) :
    ∃ extensions, (session.solve engine .never).1 = .ok extensions ∧ extensions.Nodup ∧
      forall extension, extension ∈ extensions ↔
        ∃ model, IsCompletionModel (programOf session.batches) session.raised model ∧
          extension = projection (programOf session.batches) model := by
  have distinct : (session.shown.map Prod.fst).Nodup := settled.labels ▸ nodup_visible _
  obtain ⟨extensions, solved, nodup, exact⟩ := solve_complete sound complete distinct
  refine ⟨extensions, solved, nodup, fun extension => ?_⟩
  have means := settled.mem_answers_iff [.pos (session.variableCount + 1)] (fun _ => True)
    (fun _ _ => trivial) (fun model _ _ literal member => ?_) extension
  · simpa [exact] using means
  · simp [List.mem_singleton.mp member, Literal.holds, Literal.pos, settled.canonical_next]

/-- The atoms that a session knows are assumed under their variables. -/
theorem assumedLiterals_of_known {session : Session α} {atoms : List (Atom α)}
    (known : forall atom, atom ∈ atoms -> (session.varOf? atom).isSome) :
    session.assumedLiterals atoms = .ok (atoms.map fun atom => .pos (session.number atom)) := by
  induction atoms with
  | nil => rfl
  | cons atom rest ih =>
    have others := ih fun other member => known other (List.mem_cons_of_mem atom member)
    obtain ⟨var, found⟩ := Option.isSome_iff_exists.mp (known atom List.mem_cons_self)
    simp only [assumedLiterals] at others
    simp only [assumedLiterals, List.mapM_cons, others, found, List.map_cons,
      number_of_varOf? found]
    rfl

/-- Atoms are not assumed when the session has not seen one of them, and the first such atom is
reported. -/
theorem assumedLiterals_of_unknown {session : Session α} {before after : List (Atom α)}
    {atom : Atom α} (known : forall other, other ∈ before -> (session.varOf? other).isSome)
    (unknown : session.varOf? atom = none) :
    session.assumedLiterals (before ++ atom :: after) = .error (.unknownElement atom) := by
  have literals := assumedLiterals_of_known known
  simp only [assumedLiterals] at literals ⊢
  rw [List.mapM_append, literals, List.mapM_cons, unknown]
  rfl

/-- Atoms are assumed only when the session knows them all. -/
theorem isSome_of_assumedLiterals {session : Session α} {atoms : List (Atom α)}
    {literals : List Literal} (assumed : session.assumedLiterals atoms = .ok literals) :
    forall atom, atom ∈ atoms -> (session.varOf? atom).isSome := by
  cases first : atoms.find? fun atom => (session.varOf? atom).isNone with
  | none => simpa [Option.isSome_iff_ne_none] using first
  | some atom =>
    obtain ⟨unknown, before, after, rfl, known⟩ := List.find?_eq_some_iff_append.mp first
    rw [assumedLiterals_of_unknown (by simpa [Option.isSome_iff_ne_none] using known)
      (Option.isNone_iff_eq_none.mp unknown)] at assumed
    cases assumed

/-- The search for a model in which some known atoms hold gives the projection of one, or nothing
when there is none. -/
theorem Settled.findModel_exact {ledger : Ledger α} {session : Session α}
    (settled : session.Settled ledger) {engine : Engine} (sound : engine.Sound)
    (complete : engine.Complete) {atoms : List (Atom α)}
    (known : forall atom, atom ∈ atoms -> (session.varOf? atom).isSome) :
    ∃ found, (session.findModel engine atoms).1 = .ok found ∧
      (forall extension, found = some extension ->
        ∃ model, IsCompletionModel (programOf session.batches) session.raised model ∧
          (forall atom, atom ∈ atoms -> model atom = true) ∧
          extension = projection (programOf session.batches) model) ∧
      (found = none ->
        forall model, IsCompletionModel (programOf session.batches) session.raised model ->
          ¬ forall atom, atom ∈ atoms -> model atom = true) := by
  have literals := assumedLiterals_of_known known
  obtain ⟨found, answered, some, none⟩ := findModel_complete sound complete literals
  have means := settled.mem_answers_iff
    (atoms.map fun atom => .pos (session.number atom))
    (fun model => forall atom, atom ∈ atoms -> model atom = true)
    (fun valuation allows atom member => ?_) (fun model completion holds literal member => ?_)
  · refine ⟨found, answered, fun extension same => (means extension).mp (some extension same),
      fun same model completion holds => ?_⟩
    have member := (means _).mpr ⟨model, completion, holds, rfl⟩
    simp [none same] at member
  · obtain ⟨var, numbered⟩ := Option.isSome_iff_exists.mp (known atom member)
    have assumed := allows.assumed (.pos var) (List.mem_append_right _
      (List.mem_map.mpr ⟨atom, member, by rw [number_of_varOf? numbered]⟩))
    rw [interpretation_of_varOf? numbered]
    simpa [Literal.holds, Literal.pos] using assumed
  · obtain ⟨atom, inside, rfl⟩ := List.mem_map.mp member
    obtain ⟨var, numbered⟩ := Option.isSome_iff_exists.mp (known atom inside)
    have value := settled.canonical_atom completion numbered
    simp [Literal.holds, Literal.pos, number_of_varOf? numbered, value, holds atom inside]

/-- The flag of a declared element tells the value of its external atom. -/
theorem Settled.flag_of_external {ledger : Ledger α} {session : Session α}
    (settled : session.Settled ledger) {element : Element α}
    (declared : .external element.flagAtom ∈ programOf session.batches) :
    session.flag element = .ok (session.raised element) := by
  obtain ⟨flag, found⟩ := Option.isSome_iff_exists.mp (settled.external_iff.mp declared)
  simp [Session.flag, found, raised_of_flag? found]

section Runs

variable [Label α]

/-- After any run, the session stands for the batches that it accepted: each external atom has the
value of its flag, and an enumeration lists the projections of the completion models of all these
rules, each once. -/
theorem solve_run_exact (requests : List (Request α)) {engine : Engine} (sound : engine.Sound)
    (complete : engine.Complete) :
    let session := run requests
    let rules := programOf session.batches
    (forall batch, batch ∈ session.batches ↔ Accepted requests batch) ∧
      (forall element, .external element.flagAtom ∈ rules ->
        session.flag element = .ok (session.raised element)) ∧
      ∃ extensions, (session.solve engine .never).1 = .ok extensions ∧ extensions.Nodup ∧
        forall extension, extension ∈ extensions ↔
          ∃ model, IsCompletionModel rules session.raised model ∧
            extension = projection rules model := by
  intro session rules
  obtain ⟨ledger, settled⟩ := settled_run requests
  exact ⟨mem_batches_run requests, fun element => settled.flag_of_external,
    settled.solve_exact sound complete⟩

/-- A single argument, and an enumeration that an engine answered wrongly. -/
def singleRun : List (Request Int) :=
  [.apply ⟨.argument 1, Encoding.argumentRules 1⟩, .setFlag (.argument 1) true,
    .solve (.scripted [.satisfiable ⟨[]⟩, .unknown]) .never]

theorem solve_run_exact_single :
    Engine.searching.Sound ∧ Engine.searching.Complete ∧
      ∃ extensions, ((run singleRun).solve .searching .never).1 = .ok extensions ∧
        [1] ∈ extensions := by
  obtain ⟨_, _, extensions, solved, _, exact⟩ :=
    solve_run_exact singleRun Engine.searching_sound Engine.searching_complete
  refine ⟨Engine.searching_sound, Engine.searching_complete, extensions, solved,
    (exact _).mpr ?_⟩
  have batches : (run singleRun).batches = [⟨.argument 1, Encoding.argumentRules 1⟩] := by
    decide +kernel
  have raised : (run singleRun).raised (.argument 1) = true := by decide +kernel
  rw [batches]
  refine ⟨fun atom => atom = .argument 1 || atom = .inside 1, ⟨?_, ?_, ?_⟩, by decide⟩
  · intro element declared
    cases element <;> simp_all [programOf, Encoding.argumentRules, Element.flagAtom]
  · intro atom plain
    cases atom <;> simp_all [programOf, Encoding.argumentRules, Interpretation.satisfies,
      BodyLiteral.isTrueIn, Atom.isStructural]
  · simp [programOf, Encoding.argumentRules]

end Runs

end Argumentation.Session
