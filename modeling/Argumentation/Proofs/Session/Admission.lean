import Argumentation.Proofs.Session.Account

/-!
# Admission of batches

Which batches a session takes in and how it answers the others. `Session.admitted` lists the batches
that a run took in, and this list determines all the answers: the identifier of a batch is its place
in the list, and the cause of a refusal is the first one of those that the list gives. The
structural atoms that a session knows are the flags of these batches.
-/

namespace Argumentation

variable {α : Type} [DecidableEq α]

omit [DecidableEq α] in
theorem Atom.isShowable_eq_false {atom : Atom α} :
    atom.isShowable = false ↔ forall label, atom ≠ .inside label := by
  cases atom <;> simp [isShowable]

namespace Session

/-- Whether an element has one of some batches. -/
def covers (batches : List (Batch α)) (element : Element α) : Bool :=
  batches.any fun batch => batch.element = element

/-- The first end of an element that has none of some batches. -/
def missingEnd? (batches : List (Batch α)) (element : Element α) : Option α :=
  element.ends.find? fun label => !covers batches (.argument label)

/-- What is wrong with a batch that comes after some others. -/
inductive Faulty (batches : List (Batch α)) (batch : Batch α) : BatchFault α -> Prop where
  | unexpectedExternal {atom} (listed : .external atom ∈ batch.rules)
      (other : atom ≠ batch.element.flagAtom) :
      Faulty batches batch (.unexpectedExternal atom)
  | derived {head body} (listed : .derive head body ∈ batch.rules)
      (structural : head.isStructural = true) :
      Faulty batches batch (.derivesExternal head)
  | opened {head} (listed : .declare head ∈ batch.rules)
      (structural : head.isStructural = true) :
      Faulty batches batch (.derivesExternal head)
  | notShowable {atom} (listed : .display atom ∈ batch.rules)
      (hidden : forall label, atom ≠ .inside label) :
      Faulty batches batch (.notShowable atom)
  | unknownExternal {rule literal} (listed : rule ∈ batch.rules) (inside : literal ∈ rule.body)
      (structural : literal.atom.isStructural = true)
      (foreign : literal.atom ≠ batch.element.flagAtom)
      (unknown : forall other, other ∈ batches -> literal.atom ≠ other.element.flagAtom) :
      Faulty batches batch (.unknownExternal literal.atom)
  | missingExternal (missing : .external batch.element.flagAtom ∉ batch.rules) :
      Faulty batches batch (.missingExternal batch.element.flagAtom)

theorem covers_iff {batches : List (Batch α)} {element : Element α} :
    covers batches element = true ↔ ∃ batch, batch ∈ batches ∧ batch.element = element := by
  simp [covers]

theorem batchId?_eq_none_iff_covers {session : Session α} {element : Element α} :
    session.batchId? element = none ↔ covers session.batches element = false := by
  rw [batchId?_eq_none, ← Bool.not_eq_true, covers_iff]
  simp

/-- An end is missing when it has no batch. -/
theorem missingEndpoint?_eq (session : Session α) (element : Element α) :
    session.missingEndpoint? element =
      (missingEnd? session.batches element).map .argument := by
  have absent : forall label, (session.batchId? (.argument label)).isNone =
      !covers session.batches (.argument label) := by
    intro label
    rw [Bool.eq_iff_iff, Option.isNone_iff_eq_none, batchId?_eq_none_iff_covers]
    simp
  cases element with
  | argument label => rfl
  | attack attacker attacked =>
    simp only [missingEndpoint?, missingEnd?, Element.ends, List.find?_cons, List.find?_nil, absent]
    cases covers session.batches (.argument attacker) <;>
      cases covers session.batches (.argument attacked) <;> rfl

section Settled

variable {ledger : Ledger α} {session : Session α}

/-- A structural atom is never grounded as a derived one. -/
theorem Numbered.derived?_structural (numbered : session.Numbered ledger) {atom : Atom α}
    (structural : atom.isStructural = true) : session.derived? atom = none := by
  rw [derived?, List.find?_eq_none]
  intro entry member same
  have plain := numbered.plain entry.atom entry.var (List.mem_map.mpr ⟨entry, member, rfl⟩)
  simp only [decide_eq_true_eq] at same
  simp [same, structural] at plain

/-- The structural atoms that a session knows are those of its batches. -/
theorem Settled.isSome_varOf?_structural (settled : session.Settled ledger) {atom : Atom α}
    (structural : atom.isStructural = true) :
    (session.varOf? atom).isSome ↔
      ∃ batch, batch ∈ session.batches ∧ atom = batch.element.flagAtom := by
  obtain ⟨element, rfl⟩ := Atom.exists_flagAtom structural
  rw [settled.toNumbered.varOf?_flagAtom, Option.isSome_map, settled.flagged]
  simp only [Element.flagAtom_inj, eq_comm]

/-- The fault that a session finds in a rule is one of its batch. -/
theorem Settled.faulty_of_ruleFault? (settled : session.Settled ledger) {batch : Batch α}
    {rule : Rule α} (listed : rule ∈ batch.rules) {fault : BatchFault α}
    (found : session.ruleFault? batch.element.flagAtom rule = some fault) :
    Faulty session.batches batch fault := by
  simp only [ruleFault?, Option.orElse_eq_orElse, Option.orElse_eq_or, Option.or_eq_some_iff,
    Option.map_eq_some_iff] at found
  rcases found with head | ⟨_, atom, body, rfl⟩
  · cases rule with
    | external atom =>
      simp only [Option.ite_none_left_eq_some, Option.some.injEq] at head
      obtain ⟨other, rfl⟩ := head
      exact .unexpectedExternal listed other
    | derive head body =>
      simp only [Option.ite_none_right_eq_some, Option.some.injEq] at head
      obtain ⟨structural, rfl⟩ := head
      exact .derived listed structural
    | constraint body => cases head
    | declare head =>
      simp only [Option.ite_none_right_eq_some, Option.some.injEq] at head
      obtain ⟨structural, rfl⟩ := head
      exact .opened listed structural
    | display atom =>
      simp only [Option.ite_none_left_eq_some, Option.some.injEq, Bool.not_eq_true] at head
      obtain ⟨hidden, rfl⟩ := head
      exact .notShowable listed (Atom.isShowable_eq_false.mp hidden)
  · have inside := List.mem_of_find?_eq_some body
    have undeclared := List.find?_some body
    obtain ⟨literal, member, rfl⟩ := List.mem_map.mp inside
    simp only [Bool.and_eq_true, decide_eq_true_eq, Option.isNone_iff_eq_none] at undeclared
    obtain ⟨⟨structural, foreign⟩, unknown⟩ := undeclared
    refine .unknownExternal listed member structural foreign fun other among same => ?_
    have known := (settled.isSome_varOf?_structural structural).mpr ⟨other, among, same⟩
    simp [unknown] at known

/-- The fault that a session finds in a batch is one. -/
theorem Settled.faulty_of_batchFault? (settled : session.Settled ledger) {batch : Batch α}
    {fault : BatchFault α} (found : session.batchFault? batch = some fault) :
    Faulty session.batches batch fault := by
  simp only [batchFault?, Option.orElse_eq_orElse, Option.orElse_eq_or, Option.or_eq_some_iff,
    Option.ite_none_left_eq_some, Option.some.injEq] at found
  rcases found with first | ⟨_, missing, rfl⟩
  · obtain ⟨rule, listed, found⟩ := List.exists_of_findSome?_eq_some first
    exact settled.faulty_of_ruleFault? listed found
  · exact .missingExternal (by simpa using missing)

/-- An acceptable batch has no fault. -/
theorem Settled.not_faulty (settled : session.Settled ledger) {batch : Batch α}
    (accepts : session.Accepts batch) (fault : BatchFault α) :
    ¬ Faulty session.batches batch fault := by
  rintro (⟨listed, other⟩ | ⟨listed, structural⟩ | ⟨listed, structural⟩ | ⟨listed, hidden⟩ |
    ⟨listed, inside, structural, foreign, unknown⟩ | ⟨missing⟩)
  · exact other ((accepts.fits _ listed).external _ rfl)
  · simp [(accepts.fits _ listed).derived _ _ rfl] at structural
  · simp [(accepts.fits _ listed).opened _ rfl] at structural
  · have shown := (accepts.fits _ listed).showable _ rfl
    simp [Atom.isShowable_eq_false.mpr hidden] at shown
  · have known := (accepts.fits _ listed).known _ inside structural foreign
    obtain ⟨other, among, same⟩ := (settled.isSome_varOf?_structural structural).mp known
    exact unknown other among same
  · exact missing accepts.declared

end Settled

variable [Label α]

section Answers

variable {session : Session α} {batch : Batch α}

/-- A batch that the session has is answered with its identifier. -/
theorem apply_of_known (distinct : (session.batches.map Batch.element).Nodup) {id : Nat}
    (known : session.batches[id]? = some batch) :
    (session.apply batch).1 = .ok id ∧
      ∃ level text, (session.apply batch).2 = session.note level text := by
  have found : session.batchId? batch.element = some id := by
    obtain ⟨inside, here⟩ := List.getElem?_eq_some_iff.mp known
    rw [batchId?, List.findIdx?_eq_some_iff_getElem]
    refine ⟨inside, by simp [here], fun before earlier same => ?_⟩
    have apart := List.pairwise_iff_getElem.mp (List.pairwise_map.mp distinct) before id
      (earlier.trans inside) inside earlier
    rw [decide_eq_true_eq] at same
    exact apart (here ▸ same)
  simp only [apply, found, known, if_true]
  exact ⟨trivial, _, _, rfl⟩

/-- Another batch of an element that has one is refused. -/
theorem apply_of_conflict (new : batch ∉ session.batches)
    (covered : covers session.batches batch.element = true) :
    session.apply batch = (.error (.batchConflict batch.element), session) := by
  have known : session.batchId? batch.element ≠ none := by
    rw [Ne, batchId?_eq_none_iff_covers, covered]
    simp
  obtain ⟨id, found⟩ := Option.ne_none_iff_exists'.mp known
  have other : session.batches[id]? ≠ some batch := fun same =>
    new (List.mem_of_getElem? same)
  simp [apply, found, other]

/-- An attack without one of its ends is refused. -/
theorem apply_of_missingEnd (uncovered : covers session.batches batch.element = false) {label : α}
    (missing : missingEnd? session.batches batch.element = some label) :
    session.apply batch = (.error (.unknownElement (.argument label)), session) := by
  have endpoint := session.missingEndpoint?_eq batch.element
  simp [apply, batchId?_eq_none_iff_covers.mpr uncovered, check, endpoint, missing,
    Element.flagAtom]

/-- Any other batch is refused for one of its faults, or else it is taken in. -/
theorem Settled.apply_of_complete {ledger : Ledger α} (settled : session.Settled ledger)
    (uncovered : covers session.batches batch.element = false)
    (complete : missingEnd? session.batches batch.element = none) :
    (∃ fault, Faulty session.batches batch fault ∧
      session.apply batch = (.error (.malformedBatch batch.element fault), session)) ∨
    (forall fault, ¬ Faulty session.batches batch fault) ∧
      (session.apply batch).1 = .ok session.batchCount := by
  have absent := batchId?_eq_none_iff_covers.mpr uncovered
  have endpoint : session.missingEndpoint? batch.element = none := by
    rw [missingEndpoint?_eq, complete]
    rfl
  cases checked : session.batchFault? batch with
  | some fault =>
    refine .inl ⟨fault, settled.faulty_of_batchFault? checked, ?_⟩
    simp [Session.apply, absent, check, endpoint, checked]
  | none =>
    have accepts : session.Accepts batch := by
      rw [← check_eq_ok]
      simp [check, endpoint, checked]
    exact .inr ⟨settled.not_faulty accepts, by rw [apply_of_accepts absent accepts]⟩

end Answers

section Runs

/-- The batch that a session takes in, or has taken in before, at a request. -/
def accepted? (session : Session α) : Request α -> Option (Batch α)
  | .apply batch => if (session.apply batch).1.toBool then some batch else none
  | _ => none

/-- The batches that are answered with an identifier, in order. -/
def acceptedFrom (session : Session α) : List (Request α) -> List (Batch α)
  | [] => []
  | request :: rest =>
    (session.accepted? request).toList ++ acceptedFrom (session.perform request) rest

/-- The batches that a run takes in, in order; a batch that is applied again counts once. -/
def admitted (requests : List (Request α)) : List (Batch α) :=
  (acceptedFrom empty requests).eraseDups

theorem acceptedFrom_append (session : Session α) (requests others : List (Request α)) :
    session.acceptedFrom (requests ++ others) =
      session.acceptedFrom requests ++ (requests.foldl perform session).acceptedFrom others := by
  induction requests generalizing session with
  | nil => rfl
  | cons request rest ih => simp [acceptedFrom, ih]

theorem admitted_append_singleton (requests : List (Request α)) (request : Request α) :
    admitted (requests ++ [request]) =
      match (run requests).accepted? request with
      | some batch =>
        if batch ∈ admitted requests then admitted requests else admitted requests ++ [batch]
      | none => admitted requests := by
  have last : (run requests).acceptedFrom [request] = ((run requests).accepted? request).toList :=
    List.append_nil _
  rw [admitted, acceptedFrom_append, ← run, last, List.eraseDups_append, ← admitted]
  cases (run requests).accepted? request with
  | none => simp [List.removeAll]
  | some batch =>
    simp only [admitted, List.mem_eraseDups, Option.toList_some]
    split <;> simp_all [List.removeAll, List.eraseDups_cons]

/-- A request for a batch may add it, if its element has none; else the session has it already when
the request is answered with an identifier. -/
theorem batches_perform_cases (session : Session α) (request : Request α) :
    (∃ batch, session.accepted? request = some batch ∧ session.batchId? batch.element = none ∧
      (session.perform request).batches = session.batches ++ [batch]) ∨
    (session.perform request).batches = session.batches ∧
      forall batch, session.accepted? request = some batch -> batch ∈ session.batches := by
  cases request with
  | apply batch =>
    by_cases taken : session.batchId? batch.element = none ∧ session.Accepts batch
    · obtain ⟨new, accepts⟩ := taken
      refine .inl ⟨batch, ?_, new, batches_apply new accepts⟩
      rw [accepted?, apply_of_accepts new accepts]
      rfl
    · have frame : (session.apply batch).2.batches = session.batches := (frame_apply taken).2
      refine .inr ⟨frame, fun other answered => ?_⟩
      simp only [accepted?, Option.ite_none_right_eq_some, Option.some.injEq] at answered
      obtain ⟨answered, rfl⟩ := answered
      rw [← frame]
      exact mem_batches_apply.mpr (.inr ⟨rfl, answered⟩)
  | setFlag element value =>
    exact .inr ⟨batches_setFlag session element value, fun _ answered => nomatch answered⟩
  | solve engine deadline | findModel engine atoms =>
    exact .inr ⟨(keeps_perform rfl session).batches, fun _ answered => nomatch answered⟩

/-- The batches of a session are those that its run took in. -/
theorem batches_run (requests : List (Request α)) : (run requests).batches = admitted requests := by
  induction requests using List.reverseRecOn with
  | nil => rfl
  | append_singleton requests request ih =>
    rw [run_append_singleton, admitted_append_singleton, ← ih]
    obtain ⟨batch, answered, new, added⟩ | ⟨kept, old⟩ :=
      batches_perform_cases (run requests) request
    · have absent : batch ∉ (run requests).batches := fun member =>
        batchId?_eq_none.mp new batch member rfl
      simp only [answered, absent, if_false, added]
    · rw [kept]
      split
      · rename_i batch answered
        rw [if_pos (old batch answered)]
      · rfl

/-- No two batches of a session are for the same element. -/
theorem nodup_elements_run (requests : List (Request α)) :
    ((run requests).batches.map Batch.element).Nodup := by
  induction requests using List.reverseRecOn with
  | nil => exact List.nodup_nil
  | append_singleton requests request ih =>
    rw [run_append_singleton]
    obtain ⟨batch, _, new, added⟩ | ⟨kept, _⟩ := batches_perform_cases (run requests) request
    · rw [added, List.map_append, List.nodup_append]
      refine ⟨ih, List.nodup_singleton _, fun element member other last => ?_⟩
      obtain ⟨old, listed, rfl⟩ := List.mem_map.mp member
      rw [List.mem_singleton.mp last]
      exact batchId?_eq_none.mp new old listed
    · rwa [kept]

/-- The batches that a run took in, no two of them for the same element, determine how the session
answers the next one. A batch that it has is answered with its place among them and leaves a note at
most; any other batch is refused, for the first cause that applies, and leaves the session as it is,
or else it becomes the last one and is answered with its place. The structural atoms that the
session knows are those of its batches, and none of them is derived. -/
theorem apply_run (requests : List (Request α)) (batch : Batch α) :
    let session := run requests
    let batches := admitted requests
    session.batchCount = batches.length ∧
      (forall element,
        session.batchId? element = batches.findIdx? fun batch => batch.element = element) ∧
      (batches.map Batch.element).Nodup ∧
      (forall atom, atom.isStructural = true -> session.derived? atom = none ∧
        ((session.varOf? atom).isSome ↔
          ∃ batch, batch ∈ batches ∧ atom = batch.element.flagAtom)) ∧
      (forall id, batches[id]? = some batch -> (session.apply batch).1 = .ok id ∧
        ∃ level text, (session.apply batch).2 = session.note level text) ∧
      (batch ∉ batches ->
        if covers batches batch.element then
          session.apply batch = (.error (.batchConflict batch.element), session)
        else match missingEnd? batches batch.element with
          | some label =>
            session.apply batch = (.error (.unknownElement (.argument label)), session)
          | none =>
            (∃ fault, Faulty batches batch fault ∧
              session.apply batch = (.error (.malformedBatch batch.element fault), session)) ∨
            (forall fault, ¬ Faulty batches batch fault) ∧
              (session.apply batch).1 = .ok batches.length ∧
              admitted (requests ++ [.apply batch]) = batches ++ [batch]) := by
  intro session batches
  obtain ⟨_, settled⟩ := settled_run requests
  have same : session.batches = batches := batches_run requests
  have distinct := nodup_elements_run requests
  rw [← same]
  refine ⟨rfl, fun _ => rfl, distinct, fun atom structural => ⟨?_, ?_⟩, fun id known => ?_, ?_⟩
  · exact settled.toNumbered.derived?_structural structural
  · exact settled.isSome_varOf?_structural structural
  · exact apply_of_known distinct known
  · intro new
    split
    · rename_i covered
      exact apply_of_conflict new covered
    · rename_i uncovered
      rw [Bool.not_eq_true] at uncovered
      split
      · rename_i label missing
        exact apply_of_missingEnd uncovered missing
      · rename_i complete
        refine (settled.apply_of_complete uncovered complete).imp_right fun ⟨faultless, answered⟩ =>
          ⟨faultless, answered, ?_⟩
        have answers : session.accepted? (.apply batch) = some batch := by
          rw [accepted?, answered]
          rfl
        rw [admitted_append_singleton, answers, ← batches_run]
        exact if_neg new

/-- An argument, an attack that comes too early, and the argument again. -/
def hasty : List (Request Int) :=
  [.apply ⟨.argument 1, Encoding.argumentRules 1⟩,
    .apply ⟨.attack 1 2, Encoding.attackRules 1 2⟩,
    .apply ⟨.argument 1, Encoding.argumentRules 1⟩]

theorem apply_run_hasty :
    ((Atom.argument 1).isStructural = true ∧ ((run hasty).varOf? (.argument 1)).isSome) ∧
      ((admitted hasty)[0]? = some ⟨.argument 1, Encoding.argumentRules 1⟩ ∧
        ((run hasty).apply ⟨.argument 1, Encoding.argumentRules 1⟩).1 = .ok 0) ∧
      (⟨.argument 1, []⟩ ∉ admitted hasty ∧
        (run hasty).apply ⟨.argument 1, []⟩ =
          (.error (.batchConflict (.argument 1)), run hasty)) ∧
      (⟨.attack 2 1, []⟩ ∉ admitted hasty ∧
        (run hasty).apply ⟨.attack 2 1, []⟩ =
          (.error (.unknownElement (.argument 2)), run hasty)) ∧
      (⟨.argument 2, []⟩ ∉ admitted hasty ∧ ∃ fault,
        (run hasty).apply ⟨.argument 2, []⟩ =
          (.error (.malformedBatch (.argument 2) fault), run hasty)) ∧
      (⟨.argument 2, [.external (.argument 2)]⟩ ∉ admitted hasty ∧
        ((run hasty).apply ⟨.argument 2, [.external (.argument 2)]⟩).1 = .ok 1) := by
  have batches : admitted hasty = [⟨.argument 1, Encoding.argumentRules 1⟩] := by decide +kernel
  have faultless : forall fault, ¬ Faulty [⟨.argument 1, Encoding.argumentRules 1⟩]
      (⟨.argument 2, [.external (.argument 2)]⟩ : Batch Int) fault := by
    intro fault faulty
    cases faulty <;> simp_all [Element.flagAtom, Rule.body]
  have general := apply_run hasty
  simp only [batches] at general ⊢
  obtain ⟨_, _, _, atoms, known, _⟩ := general ⟨.argument 1, Encoding.argumentRules 1⟩
  obtain ⟨_, _, _, _, _, conflict⟩ := general ⟨.argument 1, []⟩
  obtain ⟨_, _, _, _, _, early⟩ := general ⟨.attack 2 1, []⟩
  obtain ⟨_, _, _, _, _, malformed⟩ := general ⟨.argument 2, []⟩
  obtain ⟨_, _, _, _, _, fresh⟩ := general ⟨.argument 2, [.external (.argument 2)]⟩
  refine ⟨⟨rfl, (atoms _ rfl).2.mpr ⟨_, List.mem_singleton.mpr rfl, rfl⟩⟩,
    ⟨rfl, (known 0 rfl).1⟩, ⟨by decide, conflict (by decide)⟩, ⟨by decide, early (by decide)⟩,
    ⟨by decide, ?_⟩, ⟨by decide, ?_⟩⟩
  · obtain ⟨fault, _, refused⟩ | ⟨faultless, _⟩ := malformed (by decide)
    · exact ⟨fault, refused⟩
    · exact absurd (.missingExternal (by simp)) (faultless _)
  · obtain ⟨fault, faulty, _⟩ | ⟨_, taken, _⟩ := fresh (by decide)
    · exact absurd faulty (faultless fault)
    · exact taken

end Runs

end Session

end Argumentation
