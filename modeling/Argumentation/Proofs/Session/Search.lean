import Argumentation.Proofs.Session.Alike

/-!
# Searching for one model

A search for a model that makes some atoms true agrees with the enumeration: it finds one of the
listed extensions, or nothing when none of the models makes the atoms true. It refuses atoms that no
rule mentions, and leaves no trace.
-/

namespace Argumentation.Session

open Argumentation.Sat (Engine)

variable {α : Type} [DecidableEq α]

section Settled

variable {ledger : Ledger α} {session : Session α}

/-- A visible argument is found exactly when it is listed. -/
theorem Settled.findModel_inside (settled : session.Settled ledger) {engine other : Engine}
    (sound : engine.Sound ∧ other.Sound) (complete : engine.Complete ∧ other.Complete)
    {label : α} (shown : .display (.inside label) ∈ programOf session.batches) :
    ∃ found extensions, (session.findModel engine [.inside label]).1 = .ok found ∧
      (session.solve other .never).1 = .ok extensions ∧
      (found.isSome = true ↔ ∃ extension, extension ∈ extensions ∧ label ∈ extension) := by
  have known : forall atom, atom ∈ [Atom.inside label] -> (session.varOf? atom).isSome := by
    simpa using settled.isSome_varOf? ⟨_, shown, by simp [Rule.atoms, Rule.head?]⟩
  obtain ⟨found, answered, exact⟩ := settled.findModel_isSome sound.1 complete.1 known
  obtain ⟨extensions, solved, _, listed⟩ := settled.solve_exact sound.2 complete.2
  refine ⟨found, extensions, answered, solved, ?_⟩
  rw [exact]
  constructor
  · rintro ⟨model, completion, holds⟩
    refine ⟨_, (listed _).mpr ⟨model, completion, rfl⟩, mem_projection.mpr ⟨shown, ?_⟩⟩
    exact holds _ (List.mem_singleton.mpr rfl)
  · rintro ⟨extension, member, inside⟩
    obtain ⟨model, completion, rfl⟩ := (listed extension).mp member
    exact ⟨model, completion, List.forall_mem_singleton.mpr (mem_projection.mp inside).2⟩

end Settled

variable [Label α]

/-- After any run, a search for a model refuses the first atom that no rule of the accepted batches
mentions, without asking the engine. When the rules mention all the atoms, it finds nothing exactly
when no completion model under the current flags makes them all true, and otherwise what such a
model shows, which is one of the extensions that an enumeration lists. So a visible argument is
found exactly when some listed extension has it. Every later answer is as it is without the
search. -/
theorem findModel_run (requests : List (Request α)) (atoms : List (Atom α)) {engine other : Engine}
    (sound : engine.Sound ∧ other.Sound) (complete : engine.Complete ∧ other.Complete) :
    let session := run requests
    let rules := programOf session.batches
    let models := fun model : Interpretation α => IsCompletionModel rules session.raised model ∧
      forall atom, atom ∈ atoms -> model atom = true
    (forall batch, batch ∈ session.batches ↔ Accepted requests batch) ∧
      (forall before atom after, atoms = before ++ atom :: after ->
        (forall seen, seen ∈ before -> Mentions rules seen) -> ¬ Mentions rules atom ->
          session.findModel engine atoms = (.error (.unknownElement atom), session)) ∧
      (∃ extensions, (session.solve other .never).1 = .ok extensions ∧
        ((forall atom, atom ∈ atoms -> Mentions rules atom) ->
          ∃ found, (session.findModel engine atoms).1 = .ok found ∧
            (found = none ↔ forall model, ¬ models model) ∧
            forall extension, found = some extension ->
              extension ∈ extensions ∧
                ∃ model, models model ∧ extension = projection rules model) ∧
        forall label, .display (.inside label) ∈ rules ->
          ∃ found, (session.findModel engine [.inside label]).1 = .ok found ∧
            (found.isSome = true ↔ ∃ extension, extension ∈ extensions ∧ label ∈ extension)) ∧
      forall later, AnswersAlike (run (requests ++ later))
        (run (requests ++ .findModel engine atoms :: later)) := by
  intro session rules models
  obtain ⟨_, settled⟩ := settled_run requests
  obtain ⟨extensions, solved, _, listed⟩ := settled.solve_exact sound.2 complete.2
  have seen := isSome_varOf?_run requests
  refine ⟨mem_batches_run requests, fun before atom after split mentioned unmentioned => ?_,
    ⟨extensions, solved, fun mentioned => ?_, fun label shown => ?_⟩, fun later => ?_⟩
  · have unknown : session.varOf? atom = none := by
      rwa [← Option.not_isSome_iff_eq_none, seen]
    rw [split]
    exact findModel_of_unknown (fun other member => (seen other).mpr (mentioned other member))
      unknown engine
  · have known : forall atom, atom ∈ atoms -> (session.varOf? atom).isSome :=
      fun atom member => (seen atom).mpr (mentioned atom member)
    obtain ⟨found, answered, some, none⟩ := settled.findModel_exact sound.1 complete.1 known
    refine ⟨found, answered, ⟨fun same model holds => none same model holds.1 holds.2, ?_⟩, ?_⟩
    · intro absent
      by_contra present
      obtain ⟨extension, same⟩ := Option.ne_none_iff_exists'.mp present
      obtain ⟨model, completion, holds, _⟩ := some extension same
      exact absent model ⟨completion, holds⟩
    · intro extension same
      obtain ⟨model, completion, holds, shows⟩ := some extension same
      exact ⟨(listed extension).mpr ⟨model, completion, shows⟩, model, ⟨completion, holds⟩, shows⟩
  · obtain ⟨found, others, answered, also, exact⟩ := settled.findModel_inside sound complete shown
    rw [solved] at also
    exact ⟨found, answered, Except.ok.inj also ▸ exact⟩
  · exact (alike_run (by simp [Request.operates])).answersAlike

theorem findModel_run_dormant :
    (Engine.searching.Sound ∧ Engine.searching.Sound) ∧
      (Engine.searching.Complete ∧ Engine.searching.Complete) ∧
      (Mentions (programOf (run dormant).batches) (.inside 1) ∧
        ¬ Mentions (programOf (run dormant).batches) (.inside 3) ∧
        (run dormant).findModel .searching [.inside 1, .inside 3] =
          (.error (.unknownElement (.inside 3)), run dormant)) ∧
      (.display (.inside 1) ∈ programOf (run dormant).batches ∧
        ∃ extensions, ((run dormant).solve .searching .never).1 = .ok extensions ∧
          ∃ found, ((run dormant).findModel .searching [.inside 1]).1 = .ok found ∧
            (forall extension, found = some extension -> extension ∈ extensions) ∧
            (found.isSome = true ↔ ∃ extension, extension ∈ extensions ∧ 1 ∈ extension)) := by
  have sound := Engine.searching_sound
  have complete := Engine.searching_complete
  have batches : (run dormant).batches = [⟨.argument 1, Encoding.argumentRules 1⟩,
      ⟨.argument 2, Encoding.argumentRules 2⟩, ⟨.attack 2 1, Encoding.attackRules 2 1⟩] := by
    decide +kernel
  have shown : .display (.inside 1) ∈ programOf (run dormant).batches := by
    rw [batches]
    decide
  have known : Mentions (programOf (run dormant).batches) (.inside 1) :=
    ⟨_, shown, by decide⟩
  have unknown : ¬ Mentions (programOf (run dormant).batches) (.inside 3) := by
    rw [batches, Mentions]
    decide
  obtain ⟨_, refused, _⟩ :=
    findModel_run dormant [.inside 1, .inside 3] ⟨sound, sound⟩ ⟨complete, complete⟩
  obtain ⟨_, _, ⟨extensions, solved, search, visible⟩, _⟩ :=
    findModel_run dormant [.inside 1] ⟨sound, sound⟩ ⟨complete, complete⟩
  obtain ⟨found, answered, _, among⟩ := search (List.forall_mem_singleton.mpr known)
  obtain ⟨same, again, exact⟩ := visible 1 shown
  rw [answered] at again
  cases again
  exact ⟨⟨sound, sound⟩, ⟨complete, complete⟩,
    ⟨known, unknown, refused [.inside 1] _ [] rfl (List.forall_mem_singleton.mpr known) unknown⟩,
    shown, extensions, solved, found, answered, fun extension same => (among extension same).1,
    exact⟩

end Argumentation.Session
