import Argumentation.Proofs.Program.Admissibility
import Argumentation.Proofs.Session.Exactness

/-!
# Stable answers

A session computes models of the completion, not stable models. On tight programs, such as those of
frameworks, both show the same.
-/

namespace Argumentation.Session

open Argumentation.Sat (Engine)

variable {α : Type} [DecidableEq α]

/-- The structural atoms of the batches of a settled session are those of its flags. -/
theorem Settled.isDeclared {ledger : Ledger α} {session : Session α}
    (settled : session.Settled ledger) : IsDeclared (programOf session.batches) where
  plain := settled.heads
  declared rule member literal inside element same := by
    rw [settled.external_iff, ← Option.isSome_map, ← settled.toNumbered.varOf?_flagAtom]
    exact settled.isSome_varOf? (same ▸ Mentions.body member inside)

variable [Label α]

/-- When the accepted batches form a tight program, an enumeration lists what the stable models of
its rules and of the facts for the true flags show, each list once. -/
theorem solve_run_stable (requests : List (Request α))
    (tight : Tight (programOf (run requests).batches)) {engine : Engine} (sound : engine.Sound)
    (complete : engine.Complete) :
    let session := run requests
    let rules := programOf session.batches
    (forall batch, batch ∈ session.batches ↔ Accepted requests batch) ∧
      (forall element, .external element.flagAtom ∈ rules ->
        session.flag element = .ok (session.raised element)) ∧
      ∃ extensions, (session.solve engine .never).1 = .ok extensions ∧ extensions.Nodup ∧
        forall extension, extension ∈ extensions ↔
          ∃ model, IsStableModel (withFacts session.raised rules) model ∧
            extension = projection rules model := by
  intro session rules
  obtain ⟨ledger, settled⟩ := settled_run requests
  obtain ⟨extensions, solved, nodup, exact⟩ := settled.solve_exact sound complete
  refine ⟨mem_batches_run requests, fun element => settled.flag_of_external, extensions, solved,
    nodup, fun extension => ?_⟩
  rw [exact, ← tight.exists_stable_iff settled.isDeclared]

/-- An argument that attacks itself. -/
def selfAttack : List (Request Int) :=
  [.apply ⟨.argument 1, Encoding.argumentRules 1⟩, .setFlag (.argument 1) true,
    .apply ⟨.attack 1 1, Encoding.attackRules 1 1⟩, .setFlag (.attack 1 1) true]

theorem solve_run_stable_selfAttack :
    Tight (programOf (run selfAttack).batches) ∧
      Engine.searching.Sound ∧ Engine.searching.Complete ∧
      ∃ extensions, ((run selfAttack).solve .searching .never).1 = .ok extensions ∧
        [] ∈ extensions := by
  have batches : (run selfAttack).batches = [⟨.argument 1, Encoding.argumentRules 1⟩,
      ⟨.attack 1 1, Encoding.attackRules 1 1⟩] := by
    decide +kernel
  have argument : (run selfAttack).raised (.argument 1) = true := by decide +kernel
  have attack : (run selfAttack).raised (.attack 1 1) = true := by decide +kernel
  have tight : Tight (programOf (run selfAttack).batches) := by
    rw [batches]
    exact Encoding.tight_program [.argument 1, .attack 1 1]
  obtain ⟨_, _, extensions, solved, _, exact⟩ :=
    solve_run_stable selfAttack tight Engine.searching_sound Engine.searching_complete
  refine ⟨tight, Engine.searching_sound, Engine.searching_complete, extensions, solved,
    (exact _).mpr ?_⟩
  obtain ⟨_, settled⟩ := settled_run selfAttack
  refine (tight.exists_stable_iff settled.isDeclared _).mpr ?_
  rw [batches]
  refine ⟨fun atom => atom ∈ [.argument 1, .attack 1 1, .outside 1, .undefended 1],
    ⟨?_, ?_, ?_⟩, by decide⟩
  · intro element declared
    cases element <;> simp_all [programOf, Encoding.argumentRules, Encoding.attackRules,
      Element.flagAtom]
  · intro atom plain
    cases atom <;> simp_all [programOf, Encoding.argumentRules, Encoding.attackRules,
      Interpretation.satisfies, BodyLiteral.isTrueIn, Atom.isStructural]
  · simp [programOf, Encoding.argumentRules, Encoding.attackRules, Interpretation.satisfies,
      BodyLiteral.isTrueIn]

end Argumentation.Session
