import Argumentation.Proofs.Session.Exactness
import Mathlib.Data.Finset.Dedup

/-!
# What answers depend on

An enumeration depends on the accepted batches and on the flags alone. Queries leave both as they
were, whatever an engine made of them, so later answers are the same. Two sessions that accepted the
same batches, in any orders and with anything else in between, list the same sets.
-/

namespace Argumentation

variable {α : Type} [DecidableEq α]

/-- What a model shows is determined by its set of labels. -/
theorem projection_eq_of_toFinset {rules : List (Rule α)} {left right : Interpretation α}
    (same : (projection rules left).toFinset = (projection rules right).toFinset) :
    projection rules left = projection rules right := by
  refine List.filter_congr fun label listed => ?_
  have member := Finset.ext_iff.mp same label
  simpa [mem_projection, mem_visible.mp listed, ← Bool.eq_iff_iff] using member

/-- The set that a model shows does not depend on the order of the rules. -/
theorem toFinset_projection_congr {rules others : List (Rule α)}
    (same : forall rule, rule ∈ others ↔ rule ∈ rules) (model : Interpretation α) :
    (projection others model).toFinset = (projection rules model).toFinset := by
  ext label
  simp only [List.mem_toFinset, mem_projection, same]

omit [DecidableEq α] in
theorem mem_programOf_congr {batches others : List (Batch α)}
    (same : forall batch, batch ∈ others ↔ batch ∈ batches) (rule : Rule α) :
    rule ∈ programOf others ↔ rule ∈ programOf batches := by
  simp only [programOf, List.mem_flatMap, same]

namespace Session

open Argumentation.Sat (Engine)

section Settled

variable {ledger later : Ledger α} {session other : Session α}

/-- Sessions with the same batches and the same flags list the same extensions. -/
theorem Settled.solve_perm (settled : session.Settled ledger) (also : other.Settled later)
    (batches : other.batches = session.batches) (raised : other.raised = session.raised)
    {first second : Engine} (sound : first.Sound ∧ second.Sound)
    (complete : first.Complete ∧ second.Complete) :
    ∃ extensions others, (session.solve first .never).1 = .ok extensions ∧
      (other.solve second .never).1 = .ok others ∧ extensions.Nodup ∧ extensions.Perm others := by
  obtain ⟨extensions, solved, nodup, exact⟩ := settled.solve_exact sound.1 complete.1
  obtain ⟨others, solvedToo, distinct, same⟩ := also.solve_exact sound.2 complete.2
  rw [batches, raised] at same
  refine ⟨extensions, others, solved, solvedToo, nodup, ?_⟩
  exact (List.perm_ext_iff_of_nodup nodup distinct).mpr fun extension =>
    (exact extension).trans (same extension).symm

/-- The sets that an enumeration lists are those that the completion models show, each once. -/
theorem Settled.solve_family (settled : session.Settled ledger) {engine : Engine}
    (sound : engine.Sound) (complete : engine.Complete) :
    ∃ extensions, (session.solve engine .never).1 = .ok extensions ∧
      (extensions.map List.toFinset).Nodup ∧
      forall members, members ∈ extensions.map List.toFinset ↔
        ∃ model, IsCompletionModel (programOf session.batches) session.raised model ∧
          members = (projection (programOf session.batches) model).toFinset := by
  obtain ⟨extensions, solved, nodup, exact⟩ := settled.solve_exact sound complete
  refine ⟨extensions, solved, ?_, fun members => ?_⟩
  · refine List.Nodup.map_on (fun left first right second same => ?_) nodup
    obtain ⟨_, _, rfl⟩ := (exact left).mp first
    obtain ⟨_, _, rfl⟩ := (exact right).mp second
    exact projection_eq_of_toFinset same
  · rw [List.mem_map]
    constructor
    · rintro ⟨extension, listed, rfl⟩
      obtain ⟨model, completion, rfl⟩ := (exact extension).mp listed
      exact ⟨model, completion, rfl⟩
    · rintro ⟨model, completion, rfl⟩
      exact ⟨_, (exact _).mpr ⟨model, completion, rfl⟩, rfl⟩

/-- Sessions whose batches are the same, in any order, list the same sets under the same flags. -/
theorem Settled.family_perm (settled : session.Settled ledger) (also : other.Settled later)
    (batches : forall batch, batch ∈ other.batches ↔ batch ∈ session.batches)
    (raised : other.raised = session.raised) {first second : Engine}
    (sound : first.Sound ∧ second.Sound) (complete : first.Complete ∧ second.Complete) :
    ∃ extensions others, (session.solve first .never).1 = .ok extensions ∧
      (other.solve second .never).1 = .ok others ∧ (extensions.map List.toFinset).Nodup ∧
      (extensions.map List.toFinset).Perm (others.map List.toFinset) := by
  obtain ⟨extensions, solved, nodup, exact⟩ := settled.solve_family sound.1 complete.1
  obtain ⟨others, solvedToo, distinct, same⟩ := also.solve_family sound.2 complete.2
  have rules := mem_programOf_congr batches
  refine ⟨extensions, others, solved, solvedToo, nodup, ?_⟩
  refine (List.perm_ext_iff_of_nodup nodup distinct).mpr fun members => ?_
  rw [exact, same, raised]
  constructor
  · rintro ⟨model, completion, rfl⟩
    exact ⟨model, completion.congr rules, (toFinset_projection_congr rules model).symm⟩
  · rintro ⟨model, completion, rfl⟩
    exact ⟨model, completion.congr fun rule => (rules rule).symm,
      toFinset_projection_congr rules model⟩

end Settled

/-- Flags are told apart by what they are raised to. -/
theorem raised_eq_of_flag {session other : Session α}
    (flags : forall element, other.flag element = session.flag element) :
    other.raised = session.raised := by
  have means : forall (some : Session α) element,
      some.raised element = true ↔ some.flag element = .ok true := by
    intro some element
    rw [raised, flag_eq, beq_iff_eq]
    cases some.flagValue? element <;> simp
  funext element
  rw [Bool.eq_iff_iff, means, means, flags]

section Queries

/-- A request that only asks. -/
inductive Query (α : Type) where
  | solve (engine : Engine) (deadline : Deadline)
  | findModel (engine : Engine) (atoms : List (Atom α))

/-- A query as one of the requests of a run. -/
def Query.request : Query α -> Request α
  | .solve engine deadline => .solve engine deadline
  | .findModel engine atoms => .findModel engine atoms

variable [Label α]

theorem keeps_query (session : Session α) (query : Query α) :
    session.Keeps (session.perform query.request) := by
  cases query with
  | solve engine deadline => exact session.keeps_solve engine deadline
  | findModel engine atoms => exact session.keeps_findModel engine atoms

theorem keeps_queries (session : Session α) (queries : List (Query α)) :
    session.Keeps ((queries.map Query.request).foldl perform session) := by
  induction queries generalizing session with
  | nil => exact .refl session
  | cons query rest ih => exact (session.keeps_query query).trans (ih _)

/-- Queries leave no trace: whatever their engines answered and whenever their deadlines passed, the
flags, the batches with their identifiers and the visible labels are as before, and an enumeration
lists what it would have listed without them. -/
theorem solve_after_queries (requests : List (Request α)) (queries : List (Query α))
    {first second : Engine} (sound : first.Sound ∧ second.Sound)
    (complete : first.Complete ∧ second.Complete) :
    let session := run requests
    let later := run (requests ++ queries.map Query.request)
    later.flags = session.flags ∧ later.batches = session.batches ∧
      (forall element, later.flag element = session.flag element ∧
        later.batchId? element = session.batchId? element) ∧
      later.shown = session.shown ∧
      ∃ extensions others, (session.solve first .never).1 = .ok extensions ∧
        (later.solve second .never).1 = .ok others ∧ extensions.Nodup ∧
        extensions.Perm others := by
  intro session later
  have keeps : session.Keeps later := by
    simpa [session, later, run] using keeps_queries session queries
  obtain ⟨_, settled⟩ := settled_run requests
  obtain ⟨_, also⟩ := settled_run (requests ++ queries.map Query.request)
  refine ⟨keeps.flags, keeps.batches, fun element => ⟨flag_congr keeps.flags element, ?_⟩,
    keeps.shown, settled.solve_perm also keeps.batches (raised_congr keeps.flags) sound complete⟩
  rw [batchId?, keeps.batches, ← batchId?]

/-- Two arguments, and an attack that was declared but is not active. -/
def dormant : List (Request Int) :=
  [.apply ⟨.argument 1, Encoding.argumentRules 1⟩, .setFlag (.argument 1) true,
    .apply ⟨.argument 2, Encoding.argumentRules 2⟩, .setFlag (.argument 2) true,
    .apply ⟨.attack 2 1, Encoding.attackRules 2 1⟩]

/-- An enumeration of wrong models that the deadline cuts off, one without a verdict at its second
call, one that finds nothing, and searches for an unknown atom and for a known one. -/
def disturbing : List (Query Int) :=
  [.solve (.scripted [.satisfiable ⟨[]⟩, .satisfiable ⟨[]⟩]) fun found => found = 1,
    .solve (.scripted [.satisfiable ⟨[]⟩, .unknown]) .never,
    .solve (.scripted []) .never,
    .findModel (.scripted []) [.inside 3], .findModel (.scripted []) [.inside 1]]

theorem solve_after_queries_disturbing :
    (Engine.searching.Sound ∧ Engine.searching.Sound) ∧
      (Engine.searching.Complete ∧ Engine.searching.Complete) ∧
      ∃ extensions others, ((run dormant).solve .searching .never).1 = .ok extensions ∧
        ((run (dormant ++ disturbing.map Query.request)).solve .searching .never).1 =
          .ok others ∧ extensions.Nodup ∧ extensions.Perm others := by
  have sound := Engine.searching_sound
  have complete := Engine.searching_complete
  obtain ⟨_, _, _, _, same⟩ :=
    solve_after_queries dormant disturbing ⟨sound, sound⟩ ⟨complete, complete⟩
  exact ⟨⟨sound, sound⟩, ⟨complete, complete⟩, same⟩

end Queries

section Orders

variable [Label α]

/-- Two runs that accepted the same batches, in whatever order and with whatever else in between,
list the same family of sets once their flags are the same. -/
theorem solve_order_independent {first second : List (Request α)}
    (same : forall batch, Accepted first batch ↔ Accepted second batch)
    (flags : forall element, (run first).flag element = (run second).flag element)
    {engine other : Engine} (sound : engine.Sound ∧ other.Sound)
    (complete : engine.Complete ∧ other.Complete) :
    ∃ extensions others, ((run first).solve engine .never).1 = .ok extensions ∧
      ((run second).solve other .never).1 = .ok others ∧
      (extensions.map List.toFinset).Nodup ∧
      (extensions.map List.toFinset).Perm (others.map List.toFinset) := by
  obtain ⟨_, settled⟩ := settled_run first
  obtain ⟨_, also⟩ := settled_run second
  refine settled.family_perm also (fun batch => ?_)
    (raised_eq_of_flag fun element => (flags element).symm) sound complete
  rw [mem_batches_run, mem_batches_run, same]

/-- Two arguments and an attack between them, each activated at once. -/
def prompt : List (Request Int) :=
  [.apply ⟨.argument 1, Encoding.argumentRules 1⟩, .setFlag (.argument 1) true,
    .apply ⟨.argument 2, Encoding.argumentRules 2⟩, .setFlag (.argument 2) true,
    .apply ⟨.attack 2 1, Encoding.attackRules 2 1⟩, .setFlag (.attack 2 1) true]

/-- The same in another order, after an attack that came too early, with a repeated argument and
queries in between. -/
def roundabout : List (Request Int) :=
  [.apply ⟨.attack 2 1, Encoding.attackRules 2 1⟩,
    .apply ⟨.argument 2, Encoding.argumentRules 2⟩,
    .solve (.scripted [.satisfiable ⟨[]⟩, .unknown]) .never,
    .apply ⟨.argument 1, Encoding.argumentRules 1⟩, .setFlag (.argument 2) true,
    .apply ⟨.argument 2, Encoding.argumentRules 2⟩, .setFlag (.argument 1) true,
    .apply ⟨.attack 2 1, Encoding.attackRules 2 1⟩, .setFlag (.attack 2 1) false,
    .findModel (.scripted []) [.inside 1], .setFlag (.attack 2 1) true]

theorem accepted_prompt_iff_roundabout (batch : Batch Int) :
    Accepted prompt batch ↔ Accepted roundabout batch := by
  have direct : (run prompt).batches = [⟨.argument 1, Encoding.argumentRules 1⟩,
      ⟨.argument 2, Encoding.argumentRules 2⟩, ⟨.attack 2 1, Encoding.attackRules 2 1⟩] := by
    decide +kernel
  have detour : (run roundabout).batches = [⟨.argument 2, Encoding.argumentRules 2⟩,
      ⟨.argument 1, Encoding.argumentRules 1⟩, ⟨.attack 2 1, Encoding.attackRules 2 1⟩] := by
    decide +kernel
  rw [← mem_batches_run, ← mem_batches_run, direct, detour]
  simp only [List.mem_cons, List.not_mem_nil, or_false, or_left_comm]

theorem flag_prompt_eq_roundabout (element : Element Int) :
    (run prompt).flag element = (run roundabout).flag element := by
  have direct : (run prompt).flags = [⟨.attack 2 1, 23, true⟩, ⟨.argument 2, 12, true⟩,
      ⟨.argument 1, 1, true⟩] := by
    decide +kernel
  have detour : (run roundabout).flags = [⟨.attack 2 1, 24, true⟩, ⟨.argument 1, 13, true⟩,
      ⟨.argument 2, 1, true⟩] := by
    decide +kernel
  simp only [flag, flag?, direct, detour]
  by_cases one : element = .argument 1
  · subst one
    rfl
  · by_cases two : element = .argument 2
    · subst two
      rfl
    · by_cases attack : element = .attack 2 1
      · subst attack
        rfl
      · simp [Ne.symm one, Ne.symm two, Ne.symm attack, List.find?]

theorem solve_order_independent_roundabout :
    (forall batch, Accepted prompt batch ↔ Accepted roundabout batch) ∧
      (forall element, (run prompt).flag element = (run roundabout).flag element) ∧
      Engine.searching.Sound ∧ Engine.searching.Complete ∧
      ∃ extensions others, ((run prompt).solve .searching .never).1 = .ok extensions ∧
        ((run roundabout).solve .searching .never).1 = .ok others ∧
        (extensions.map List.toFinset).Perm (others.map List.toFinset) := by
  have sound := Engine.searching_sound
  have complete := Engine.searching_complete
  obtain ⟨extensions, others, solved, also, _, same⟩ :=
    solve_order_independent accepted_prompt_iff_roundabout flag_prompt_eq_roundabout
      ⟨sound, sound⟩ ⟨complete, complete⟩
  exact ⟨accepted_prompt_iff_roundabout, flag_prompt_eq_roundabout, sound, complete, extensions,
    others, solved, also, same⟩

end Orders

end Session

end Argumentation
