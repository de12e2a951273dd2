import Argumentation.Proofs.Session.Account

/-!
# Active elements

Sessions that accept no other batches than those of arguments and attacks, in any order and with
flags set in any way. They agree with the account of their requests, and answer with the admissible
sets of the active elements, also when an attack is active and its ends are not.
-/

namespace Argumentation

variable {α : Type}

/-- The batch that an element is compiled into has the rules of the element. -/
theorem Encoding.eq_batchOf_of_batch [Label α] {element : Element α} {batch : Batch α}
    (compiled : Encoding.batch element = .ok batch) : batch = batchOf element := by
  cases element with
  | argument label =>
    by_cases valid : Label.isValid label = true
    · rw [Encoding.batch, argumentBatch_of_valid valid] at compiled
      exact (Except.ok.inj compiled).symm
    · rw [Encoding.batch, argumentBatch_of_invalid valid] at compiled
      cases compiled
  | attack attacker attacked =>
    by_cases first : Label.isValid attacker = true
    · by_cases second : Label.isValid attacked = true
      · rw [Encoding.batch, attackBatch_of_valid first second] at compiled
        exact (Except.ok.inj compiled).symm
      · rw [Encoding.batch, attackBatch, validate, validate, if_pos first, if_neg second]
          at compiled
        cases compiled
    · rw [Encoding.batch, attackBatch, validate, if_neg first] at compiled
      cases compiled

namespace Session

open Argumentation.Sat (Engine)

variable [DecidableEq α]

/-- A session of elements and the account of its requests agree. -/
structure Reflects (session : Session α) (registry : Registry α) : Prop where
  encoded : ∃ ledger, session.Encoded ledger
  labels : Encoding.labels session.elements = registry.labels
  attacks : forall attacker attacked, .attack attacker attacked ∈ session.elements ↔
    (attacker, attacked) ∈ registry.attacks
  active : session.raised = registry.active
  distinct : registry.labels.Nodup

namespace Reflects

variable {session other : Session α} {registry : Registry α}

theorem empty : (empty : Session α).Reflects {} where
  encoded := ⟨{}, .empty⟩
  labels := rfl
  attacks := by simp [Session.empty, elements]
  active := rfl
  distinct := List.nodup_nil

theorem knows_iff (reflects : session.Reflects registry) (element : Element α) :
    registry.Knows element ↔ element ∈ session.elements := by
  cases element with
  | argument label => rw [Registry.Knows, ← reflects.labels, Encoding.mem_labels]
  | attack attacker attacked => exact (reflects.attacks attacker attacked).symm

/-- An element may be applied when its ends are known. -/
theorem missingEndpoint?_eq_none (reflects : session.Reflects registry) (element : Element α) :
    session.missingEndpoint? element = none ↔
      forall label, label ∈ element.ends -> label ∈ registry.labels := by
  rw [Session.missingEndpoint?_eq_none]
  cases element with
  | argument label => simp [Element.ends]
  | attack attacker attacked =>
    simp only [Element.attack.injEq, and_imp, Element.ends, List.forall_mem_cons,
      ← reflects.labels, Encoding.mem_labels]
    constructor
    · intro ends
      obtain ⟨first, second⟩ := ends attacker attacked rfl rfl
      exact ⟨first, second, by simp⟩
    · rintro ⟨first, second, _⟩ _ _ rfl rfl
      exact ⟨first, second⟩

/-- A change that keeps batches and flags is not part of the account. -/
theorem of_frame (reflects : session.Reflects registry) (settled : ∃ ledger, other.Settled ledger)
    (flags : other.flags = session.flags) (batches : other.batches = session.batches) :
    other.Reflects registry where
  encoded := by
    obtain ⟨_, encoded⟩ := reflects.encoded
    obtain ⟨later, settled⟩ := settled
    exact ⟨later, encoded.of_settled settled batches⟩
  labels := by rw [elements_congr batches, reflects.labels]
  attacks := by
    rw [elements_congr batches]
    exact reflects.attacks
  active := (raised_congr flags).trans reflects.active
  distinct := reflects.distinct

/-- The flag of a known element tells whether it is active; no other element has one. -/
theorem flag_eq (reflects : session.Reflects registry) (element : Element α) :
    session.flag element =
      if registry.Knows element then .ok (registry.active element)
      else .error (.unknownElement element.flagAtom) := by
  obtain ⟨ledger, encoded⟩ := reflects.encoded
  split
  · rename_i known
    rw [encoded.flag_of_mem ((reflects.knows_iff element).mp known), reflects.active]
  · rename_i unknown
    rw [reflects.knows_iff, ← encoded.isSome_flagValue?_iff, Option.not_isSome_iff_eq_none]
      at unknown
    rw [Session.flag_eq, unknown]

variable [Label α]

/-- The batch of an element is accepted as the account takes it in. -/
theorem apply (reflects : session.Reflects registry) (element : Element α) :
    (session.apply (Encoding.batchOf element)).2.Reflects (registry.takeIn element) := by
  obtain ⟨ledger, encoded⟩ := reflects.encoded
  by_cases taken : ¬ registry.Knows element ∧
      forall label, label ∈ element.ends -> label ∈ registry.labels
  · rw [Registry.takeIn, if_pos taken]
    obtain ⟨new, ends⟩ := taken
    obtain ⟨_, later, elements, raised⟩ := encoded.apply (mt (reflects.knows_iff element).mpr new)
      ((reflects.missingEndpoint?_eq_none element).mpr ends)
    refine ⟨later, ?_, fun attacker attacked => ?_, ?_, ?_⟩
    · rw [elements, Encoding.labels, List.filterMap_append, ← Encoding.labels, reflects.labels]
      cases element <;> simp [Registry.add, Encoding.label?]
    · rw [elements, List.mem_append, reflects.attacks]
      cases element <;> simp [Registry.add]
    · rw [raised, reflects.active]
      cases element <;> rfl
    · cases element with
      | argument label =>
        refine List.nodup_append.mpr ⟨reflects.distinct, List.nodup_singleton label, ?_⟩
        rintro other member _ only rfl
        exact new (List.mem_singleton.mp only ▸ member)
      | attack attacker attacked => exact reflects.distinct
  · rw [Registry.takeIn, if_neg taken]
    have refused : ¬ (session.batchId? (Encoding.batchOf element).element = none ∧
        session.Accepts (Encoding.batchOf element)) := by
      rintro ⟨absent, accepts⟩
      refine taken ⟨fun known => ?_,
        (reflects.missingEndpoint?_eq_none element).mp accepts.endpoints⟩
      obtain ⟨batch, member, same⟩ := List.mem_map.mp ((reflects.knows_iff element).mp known)
      exact batchId?_eq_none.mp absent batch member same
    exact reflects.of_frame (encoded.toSettled.apply _) (frame_apply refused).1
      (frame_apply refused).2

/-- A flag is set as the account says. -/
theorem setFlag (reflects : session.Reflects registry) (element : Element α) (value : Bool) :
    (session.setFlag element value).2.Reflects (registry.assign element value) := by
  obtain ⟨ledger, encoded⟩ := reflects.encoded
  have declared := encoded.isSome_flagValue?_iff element
  rw [← reflects.knows_iff] at declared
  by_cases known : registry.Knows element
  · have alone : (session.setFlags value [element]).2 = (session.setFlag element value).2 := by
      rw [setFlags_cons (declared.mpr known)]
      rfl
    obtain ⟨_, later, elements, raised⟩ := encoded.setFlags value
      (List.forall_mem_singleton.mpr ((reflects.knows_iff element).mp known))
    rw [alone] at later elements raised
    rw [Registry.assign, if_pos known]
    refine ⟨⟨ledger, later⟩, ?_, ?_, ?_, ?_⟩
    · rw [elements, reflects.labels]
      cases value <;> rfl
    · rw [elements]
      cases value <;> exact reflects.attacks
    · funext other
      rw [raised, reflects.active]
      cases value <;> by_cases same : other = element <;>
        simp [Registry.raise, Registry.lower, same]
    · cases value <;> exact reflects.distinct
  · have unknown : session.flagValue? element = none := by
      rwa [← Option.not_isSome_iff_eq_none, declared]
    rw [Registry.assign, if_neg known, setFlag_of_unknown unknown]
    exact reflects

/-- A request does to a session what it does to its account, unless it is one for other rules that
is accepted. -/
theorem perform (reflects : session.Reflects registry) {request : Request α}
    (compiled : forall batch, request = .apply batch -> (session.apply batch).1.toBool = true ->
      batch = Encoding.batchOf batch.element) :
    (session.perform request).Reflects (registry.record request) := by
  obtain ⟨ledger, encoded⟩ := reflects.encoded
  cases request with
  | apply batch =>
    rw [Registry.record]
    split
    · rename_i own
      rw [own]
      exact reflects.apply batch.element
    · rename_i foreign
      have refused : ¬ (session.batchId? batch.element = none ∧ session.Accepts batch) := by
        rintro ⟨absent, accepts⟩
        refine foreign (compiled batch rfl ?_)
        rw [apply_of_accepts absent accepts]
        rfl
      exact reflects.of_frame (encoded.toSettled.apply batch) (frame_apply refused).1
        (frame_apply refused).2
  | setFlag element value => exact reflects.setFlag element value
  | solve engine deadline =>
    have keeps := session.keeps_solve engine deadline
    exact reflects.of_frame ⟨_, encoded.toSettled.solve engine deadline⟩ keeps.flags keeps.batches
  | findModel engine atoms =>
    have keeps := session.keeps_findModel engine atoms
    exact reflects.of_frame ⟨_, encoded.toSettled.findModel engine atoms⟩ keeps.flags keeps.batches

omit [Label α] in
/-- What an enumeration lists, in terms of the account. -/
theorem solve_exact (reflects : session.Reflects registry) {engine : Engine}
    (sound : engine.Sound) (complete : engine.Complete) :
    ∃ extensions, (session.solve engine .never).1 = .ok extensions ∧ extensions.Nodup ∧
      forall extension, extension ∈ extensions ↔ extension.Sublist registry.labels ∧
        IsAdmissible (fun label => registry.active (.argument label) = true)
          (fun attacker attacked => registry.active (.attack attacker attacked) = true)
          extension := by
  obtain ⟨ledger, encoded⟩ := reflects.encoded
  rw [← reflects.labels, ← reflects.active]
  exact encoded.solve_exact (reflects.labels ▸ reflects.distinct) sound complete

omit [Label α] in
theorem mem_labels_of_active (reflects : session.Reflects registry) {label : α}
    (active : registry.active (.argument label) = true) : label ∈ registry.labels := by
  obtain ⟨ledger, encoded⟩ := reflects.encoded
  exact (reflects.knows_iff (.argument label)).mpr
    (encoded.mem_of_raised _ (reflects.active ▸ active))

omit [Label α] in
/-- The batch of a known element is one of the session. -/
theorem batchOf_mem (reflects : session.Reflects registry) {element : Element α}
    (known : registry.Knows element) : Encoding.batchOf element ∈ session.batches := by
  obtain ⟨ledger, encoded⟩ := reflects.encoded
  rw [encoded.encoded]
  exact List.mem_map.mpr ⟨element, (reflects.knows_iff element).mp known, rfl⟩

end Reflects

section Runs

variable [Label α]

/-- A run that accepts no other batches than those of elements agrees with its account. -/
theorem reflects_run (requests : List (Request α))
    (compiled : forall batch, Accepted requests batch ->
      Encoding.batch batch.element = .ok batch) :
    (run requests).Reflects (Registry.ofRequests requests) := by
  simp only [← mem_batches_run] at compiled
  induction requests using List.reverseRecOn with
  | nil => exact .empty
  | append_singleton requests request ih =>
    rw [run_append_singleton, Registry.ofRequests_append_singleton]
    simp only [run_append_singleton, mem_batches_perform] at compiled
    refine (ih fun batch member => compiled batch (.inl member)).perform ?_
    intro batch applied accepted
    exact Encoding.eq_batchOf_of_batch (compiled batch (.inr ⟨applied, accepted⟩))

/-- When no other batches are accepted than those of arguments and attacks, each one is accepted if
those of its ends were applied before it, and the flags are those that were set last. Whatever they
are, also when an attack is active and its ends are not, an enumeration lists the admissible sets of
the active arguments under the active attacks, each one once. -/
theorem solve_run_active (requests : List (Request α))
    (compiled : forall batch, Accepted requests batch -> Encoding.batch batch.element = .ok batch)
    {engine : Engine} (sound : engine.Sound) (complete : engine.Complete) :
    let session := run requests
    let registry := Registry.ofRequests requests
    (forall before batch after, requests = before ++ .apply batch :: after ->
      Encoding.batch batch.element = .ok batch ->
      (forall label, label ∈ batch.element.ends -> ∃ needed,
        Encoding.batch (.argument label) = .ok needed ∧ .apply needed ∈ before) ->
      Accepted requests batch) ∧
      (forall element, session.flag element =
        if registry.Knows element then .ok (registry.active element)
        else .error (.unknownElement element.flagAtom)) ∧
      ∃ extensions, (session.solve engine .never).1 = .ok extensions ∧ extensions.Nodup ∧
        (forall extension, extension ∈ extensions ↔ extension.Sublist registry.labels ∧
          IsAdmissible (fun label => registry.active (.argument label) = true)
            (fun attacker attacked => registry.active (.attack attacker attacked) = true)
            extension) ∧
        forall members, IsAdmissible (fun label => registry.active (.argument label) = true)
            (fun attacker attacked => registry.active (.attack attacker attacked) = true) members ->
          ∃! extension, extension ∈ extensions ∧
            forall label, label ∈ extension ↔ label ∈ members := by
  intro session registry
  have reflects : session.Reflects registry := reflects_run requests compiled
  obtain ⟨extensions, solved, nodup, exact⟩ := reflects.solve_exact sound complete
  refine ⟨fun before batch after split own ends => ?_, reflects.flag_eq, extensions, solved, nodup,
    exact, fun members admissible => ?_⟩
  · have known : forall label, label ∈ batch.element.ends ->
        label ∈ (Registry.ofRequests before).labels := by
      intro label member
      obtain ⟨needed, compiled, applied⟩ := ends label member
      obtain rfl : needed = Encoding.batchOf (.argument label) :=
        Encoding.eq_batchOf_of_batch compiled
      exact Registry.mem_labels_of_apply applied
    have added := Registry.knows_ofRequests known after
    rw [Encoding.eq_batchOf_of_batch own, ← mem_batches_run]
    rw [← Encoding.eq_batchOf_of_batch own, ← split] at added
    exact reflects.batchOf_mem added
  · simp only [exact]
    exact admissible.existsUnique_sublist reflects.distinct fun _ => reflects.mem_labels_of_active

/-- An argument, one that is attacked by it although it is not active itself, and one that attacks
it. -/
def stranded : List (Request Int) :=
  [.apply ⟨.argument 1, Encoding.argumentRules 1⟩, .setFlag (.argument 1) true,
    .apply ⟨.argument 2, Encoding.argumentRules 2⟩,
    .apply ⟨.attack 2 1, Encoding.attackRules 2 1⟩, .setFlag (.attack 2 1) true,
    .apply ⟨.argument 3, Encoding.argumentRules 3⟩, .setFlag (.argument 3) true,
    .apply ⟨.attack 3 2, Encoding.attackRules 3 2⟩, .setFlag (.attack 3 2) true]

theorem solve_run_active_stranded :
    (forall batch, Accepted stranded batch -> Encoding.batch batch.element = .ok batch) ∧
      Engine.searching.Sound ∧ Engine.searching.Complete ∧
      ∃ extensions, ((run stranded).solve .searching .never).1 = .ok extensions ∧
        [1, 3] ∈ extensions ∧ [1] ∉ extensions := by
  have batches : (run stranded).batches = [⟨.argument 1, Encoding.argumentRules 1⟩,
      ⟨.argument 2, Encoding.argumentRules 2⟩, ⟨.attack 2 1, Encoding.attackRules 2 1⟩,
      ⟨.argument 3, Encoding.argumentRules 3⟩, ⟨.attack 3 2, Encoding.attackRules 3 2⟩] := by
    decide +kernel
  have compiled : forall batch, Accepted stranded batch ->
      Encoding.batch batch.element = .ok batch := by
    simp only [← mem_batches_run, batches, List.forall_mem_cons, List.not_mem_nil]
    refine ⟨?_, ?_, ?_, ?_, ?_, by simp⟩
    all_goals rfl
  have active : forall element, (Registry.ofRequests stranded).active element =
      (element = .attack 3 2 || (element = .argument 3 || (element = .attack 2 1 ||
        (element = .argument 1 || false)))) := fun _ => rfl
  have attacks : forall attacker attacked,
      (Registry.ofRequests stranded).active (.attack attacker attacked) = true ↔
        attacker = 3 ∧ attacked = 2 ∨ attacker = 2 ∧ attacked = 1 := by
    simp [active]
  obtain ⟨_, _, extensions, solved, _, exact, _⟩ :=
    solve_run_active stranded compiled Engine.searching_sound Engine.searching_complete
  refine ⟨compiled, Engine.searching_sound, Engine.searching_complete, extensions, solved,
    (exact _).mpr ⟨by decide, ?_, ?_, ?_⟩, fun member => ?_⟩
  · simp [active]
  · intro attacker attacked attack first second
    obtain ⟨rfl, rfl⟩ | ⟨rfl, rfl⟩ := (attacks attacker attacked).mp attack
    · simp at second
    · simp at first
  · intro attacker attacked attack member
    obtain ⟨rfl, rfl⟩ | ⟨rfl, rfl⟩ := (attacks attacker attacked).mp attack
    · simp at member
    · exact ⟨3, (attacks 3 2).mpr (.inl ⟨rfl, rfl⟩), by simp⟩
  · have undefended := ((exact _).mp member).2.defended 2 1
    simp [attacks] at undefended

end Runs

end Session

end Argumentation
