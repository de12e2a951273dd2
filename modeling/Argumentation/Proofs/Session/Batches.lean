import Argumentation.Proofs.Session.Renewal
import Argumentation.Session.Apply

/-!
# Batches

What makes a batch acceptable, and what a session is like between two operations. An accepted batch
extends the program by its rules and gives its element a flag, which starts false; any other batch
changes nothing.
-/

namespace Argumentation.Session

variable {α : Type} [DecidableEq α]

/-- A rule without fault for the batch of a structural atom. -/
structure Fits (session : Session α) (flagAtom : Atom α) (rule : Rule α) : Prop where
  external : forall atom, rule = .external atom -> atom = flagAtom
  derived : forall head body, rule = .derive head body -> head.isStructural = false
  opened : forall atom, rule = .declare atom -> atom.isStructural = false
  showable : forall atom, rule = .display atom -> atom.isShowable = true
  known : forall literal, literal ∈ rule.body -> literal.atom.isStructural = true ->
    literal.atom ≠ flagAtom -> (session.varOf? literal.atom).isSome

/-- A batch that a session takes in when its element is new. -/
structure Accepts (session : Session α) (batch : Batch α) : Prop where
  endpoints : session.missingEndpoint? batch.element = none
  fits : forall rule, rule ∈ batch.rules -> session.Fits batch.element.flagAtom rule
  declared : .external batch.element.flagAtom ∈ batch.rules

theorem unknownExternal?_eq_none {session : Session α} {flagAtom : Atom α} {rule : Rule α} :
    session.unknownExternal? flagAtom rule = none ↔
      forall literal, literal ∈ rule.body -> literal.atom.isStructural = true ->
        literal.atom ≠ flagAtom -> (session.varOf? literal.atom).isSome := by
  simp [unknownExternal?, Option.isSome_iff_ne_none]

theorem ruleFault?_eq_none {session : Session α} {flagAtom : Atom α} {rule : Rule α} :
    session.ruleFault? flagAtom rule = none ↔ session.Fits flagAtom rule := by
  simp only [ruleFault?, Option.orElse_eq_orElse, Option.orElse_eq_or, Option.or_eq_none_iff,
    Option.map_eq_none_iff, unknownExternal?_eq_none]
  constructor
  · rintro ⟨head, body⟩
    refine ⟨?_, ?_, ?_, ?_, body⟩
    · rintro atom rfl
      simpa using head
    · rintro atom conditions rfl
      simpa using head
    · rintro atom rfl
      simpa using head
    · rintro atom rfl
      simpa using head
  · intro fits
    refine ⟨?_, fits.known⟩
    cases rule with
    | external atom => simp [fits.external atom rfl]
    | derive head body => simp [fits.derived head body rfl]
    | constraint body => rfl
    | declare atom => simp [fits.opened atom rfl]
    | display atom => simp [fits.showable atom rfl]

/-- The check of a batch decides whether it is acceptable. -/
theorem check_eq_ok {session : Session α} {batch : Batch α} :
    session.check batch = .ok () ↔ session.Accepts batch := by
  have faultless : session.batchFault? batch = none ↔
      (forall rule, rule ∈ batch.rules -> session.Fits batch.element.flagAtom rule) ∧
        .external batch.element.flagAtom ∈ batch.rules := by
    simp [batchFault?, ruleFault?_eq_none]
  constructor
  · intro passed
    unfold check at passed
    split at passed
    · cases passed
    · split at passed
      · cases passed
      · rename_i endpoints _ fault
        obtain ⟨fits, declared⟩ := faultless.mp fault
        exact ⟨endpoints, fits, declared⟩
  · rintro ⟨endpoints, fits, declared⟩
    simp [check, endpoints, faultless.mpr ⟨fits, declared⟩]

/-- One flag of an element for each of some declarations. -/
def declareFlags (session : Session α) (element : Element α) (declarations : List (Rule α)) :
    Session α :=
  declarations.foldl (fun session _ => session.declareFlag element) session

omit [DecidableEq α] in
theorem stale_declareFlags (session : Session α) (element : Element α)
    (declarations : List (Rule α)) :
    (session.declareFlags element declarations).stale = session.stale := by
  induction declarations generalizing session with
  | nil => rfl
  | cons declaration rest ih => exact ih _

omit [DecidableEq α] in
theorem batches_declareFlags (session : Session α) (element : Element α)
    (declarations : List (Rule α)) :
    (session.declareFlags element declarations).batches = session.batches := by
  induction declarations generalizing session with
  | nil => rfl
  | cons declaration rest ih => exact ih _

/-- Other elements keep their flags. -/
theorem flag?_declareFlags_of_ne (session : Session α) {element other : Element α}
    (different : other ≠ element) (declarations : List (Rule α)) :
    (session.declareFlags element declarations).flag? other = session.flag? other := by
  induction declarations generalizing session with
  | nil => rfl
  | cons declaration rest ih =>
    refine (ih _).trans ?_
    simp [flag?, declareFlag, fresh, different.symm]

/-- A declared flag starts false. -/
theorem flag?_declareFlags_self (session : Session α) (element : Element α)
    {declarations : List (Rule α)} (declared : declarations ≠ []) :
    ∃ var, (session.declareFlags element declarations).flag? element =
      some ⟨element, var, false⟩ := by
  induction declarations generalizing session with
  | nil => exact absurd rfl declared
  | cons declaration rest ih =>
    by_cases last : rest = []
    · subst last
      exact ⟨session.variableCount + 1, by simp [declareFlags, flag?, declareFlag, fresh]⟩
    · exact ih _ last

theorem isSome_varOf?_declareFlags {session : Session α} {atom : Atom α}
    (known : (session.varOf? atom).isSome) (element : Element α) (declarations : List (Rule α)) :
    ((session.declareFlags element declarations).varOf? atom).isSome := by
  induction declarations generalizing session with
  | nil => exact known
  | cons declaration rest ih =>
    have after : ((session.declareFlag element).varOf? atom).isSome := by
      rw [isSome_varOf?_iff] at known ⊢
      obtain ⟨var, member⟩ := known
      exact ⟨var, List.mem_cons_of_mem _ member⟩
    exact ih after

theorem Grounded.declareFlags {ledger : Ledger α} {rules : List (Rule α)}
    {pending : List (Atom α)} {session : Session α}
    (grounded : session.Grounded ledger rules pending) {element : Element α}
    (new : ¬ Mentions rules element.flagAtom) (declarations : List (Rule α)) :
    ∃ later, (session.declareFlags element declarations).Grounded later rules pending := by
  induction declarations generalizing session ledger with
  | nil => exact ⟨ledger, grounded⟩
  | cons declaration rest ih => exact ih (grounded.declareFlag new)

/-- The rules of an acceptable batch may be taken in once its flag is declared. -/
theorem Fits.groundable {session other : Session α} {flagAtom : Atom α} {rule : Rule α}
    (fits : session.Fits flagAtom rule) (structural : flagAtom.isStructural = true)
    (own : (other.varOf? flagAtom).isSome)
    (known : forall atom, (session.varOf? atom).isSome -> (other.varOf? atom).isSome) :
    other.Groundable rule := by
  have body : forall literal, literal ∈ rule.body -> literal.atom.isStructural = true ->
      (other.varOf? literal.atom).isSome := by
    intro literal inside declared
    by_cases same : literal.atom = flagAtom
    · exact same ▸ own
    · exact known _ (fits.known literal inside declared same)
  refine ⟨fun atom inside declared => ?_, fun atom same => fits.external atom same ▸ structural,
    fits.derived⟩
  rcases List.mem_append.mp inside with head | condition
  · cases rule with
    | external other => simp_all [Rule.head?, fits.external other rfl]
    | derive other conditions => simp_all [Rule.head?, fits.derived other conditions rfl]
    | constraint conditions => simp [Rule.head?] at head
    | declare other => simp_all [Rule.head?, fits.opened other rfl]
    | display other =>
      have showable := fits.showable other rfl
      cases other <;> simp_all [Rule.head?, Atom.isShowable, Atom.isStructural]
  · obtain ⟨literal, member, rfl⟩ := List.mem_map.mp condition
    exact body literal member declared

/-- What holds of a session between two operations: its clauses stand for the union of its batches,
and its flags are those of their elements. -/
structure Settled (ledger : Ledger α) (session : Session α) : Prop extends
  Grounded ledger (programOf session.batches) [] session where
  stale : session.stale = []
  flagged : forall element, (session.flag? element).isSome ↔
    ∃ batch, batch ∈ session.batches ∧ batch.element = element
  declares : forall batch, batch ∈ session.batches -> forall atom,
    .external atom ∈ batch.rules ↔ atom = batch.element.flagAtom

theorem Settled.empty : (empty : Session α).Settled {} where
  toGrounded := .empty
  stale := rfl
  flagged := by simp [Session.empty, flag?]
  declares := by simp [Session.empty]

/-- A structural atom that rules mention is that of an element with a batch. -/
theorem Settled.mentions {ledger : Ledger α} {session : Session α}
    (settled : session.Settled ledger) {element : Element α}
    (mentions : Mentions (programOf session.batches) element.flagAtom) :
    ∃ batch, batch ∈ session.batches ∧ batch.element = element := by
  have known := settled.toRecorded.isSome_varOf? mentions
  rw [settled.toNumbered.varOf?_flagAtom, Option.isSome_map] at known
  exact (settled.flagged element).mp known

theorem batchId?_eq_none {session : Session α} {element : Element α} :
    session.batchId? element = none ↔
      forall batch, batch ∈ session.batches -> batch.element ≠ element := by
  simp [batchId?, List.findIdx?_eq_none_iff]

/-- The session in which the flag of a batch is declared. -/
def declared (session : Session α) (batch : Batch α) : Session α :=
  session.declareFlags batch.element (batch.rules.filter fun rule => rule matches .external _)

theorem flags_ground (session : Session α) (batch : Batch α) :
    (session.ground batch).flags = (session.declared batch).flags :=
  ((grows_foldl_groundRule _ _).trans (grows_foldl_renewCompletion _ _)).flags

theorem batches_ground (session : Session α) (batch : Batch α) :
    (session.ground batch).batches = session.batches :=
  ((grows_foldl_groundRule _ _).trans (grows_foldl_renewCompletion _ _)).batches.trans
    (batches_declareFlags _ _ _)

/-- The flag of an acceptable batch is declared and starts false. -/
theorem Accepts.flag?_declared {session : Session α} {batch : Batch α}
    (accepts : session.Accepts batch) :
    ∃ var, (session.declared batch).flag? batch.element = some ⟨batch.element, var, false⟩ :=
  flag?_declareFlags_self session batch.element
    (List.ne_nil_of_mem (List.mem_filter.mpr ⟨accepts.declared, rfl⟩))

/-- The declarations of a batch for a new element keep the invariant. -/
theorem Settled.declared {ledger : Ledger α} {session : Session α}
    (settled : session.Settled ledger) {batch : Batch α}
    (new : session.batchId? batch.element = none) :
    ∃ later, (session.declared batch).Grounded later (programOf session.batches)
      (session.declared batch).stale := by
  have unmentioned : ¬ Mentions (programOf session.batches) batch.element.flagAtom := by
    intro mentions
    obtain ⟨other, member, same⟩ := settled.mentions mentions
    exact batchId?_eq_none.mp new other member same
  have stale : (session.declared batch).stale = [] :=
    (stale_declareFlags _ _ _).trans settled.stale
  rw [stale]
  exact settled.toGrounded.declareFlags unmentioned _

/-- The rules of an acceptable batch may be taken in after its declarations. -/
theorem Accepts.groundable {ledger : Ledger α} {session : Session α} {batch : Batch α}
    (accepts : session.Accepts batch) (numbered : (session.declared batch).Numbered ledger)
    (rule : Rule α) (member : rule ∈ batch.rules) : (session.declared batch).Groundable rule := by
  obtain ⟨var, found⟩ := accepts.flag?_declared
  have own : ((session.declared batch).varOf? batch.element.flagAtom).isSome := by
    rw [numbered.varOf?_flagAtom, found]
    rfl
  exact (accepts.fits rule member).groundable batch.element.isStructural_flagAtom own
    fun atom known => isSome_varOf?_declareFlags known _ _

/-- The session in which the rules of a batch are grounded, but the completion clauses are those of
before. -/
def taken (session : Session α) (batch : Batch α) : Session α :=
  batch.rules.foldl groundRule (session.declared batch)

/-- Some rules of an acceptable batch for a new element are taken in. -/
theorem Settled.taken {ledger : Ledger α} {session : Session α}
    (settled : session.Settled ledger) {batch : Batch α}
    (new : session.batchId? batch.element = none) (accepts : session.Accepts batch)
    {rules : List (Rule α)} (among : rules ⊆ batch.rules) :
    ∃ later, (rules.foldl groundRule (session.declared batch)).Grounded later
      (programOf session.batches ++ rules)
      (rules.foldl groundRule (session.declared batch)).stale := by
  obtain ⟨first, declared⟩ := settled.declared new
  exact declared.foldl_groundRule fun rule member =>
    accepts.groundable declared.toNumbered rule (among member)

/-- Grounding an acceptable batch for a new element keeps the invariant and adds the rules. -/
theorem Settled.ground {ledger : Ledger α} {session : Session α}
    (settled : session.Settled ledger) {batch : Batch α}
    (new : session.batchId? batch.element = none) (accepts : session.Accepts batch) :
    ∃ later, (session.ground batch).Grounded later (programOf session.batches ++ batch.rules)
      [] := by
  obtain ⟨second, taken⟩ : ∃ second, (session.taken batch).Grounded second
      (programOf session.batches ++ batch.rules) ((session.taken batch).stale ++ []) := by
    rw [List.append_nil]
    exact settled.taken new accepts (List.Subset.refl _)
  obtain ⟨later, renewed⟩ := taken.foldl_renewCompletion
  exact ⟨later, renewed.congr rfl rfl rfl rfl rfl rfl⟩

/-- The new flag after a batch was grounded. -/
theorem Accepts.flag?_ground_self {session : Session α} {batch : Batch α}
    (accepts : session.Accepts batch) :
    ∃ var, (session.ground batch).flag? batch.element = some ⟨batch.element, var, false⟩ := by
  obtain ⟨var, found⟩ := accepts.flag?_declared
  exact ⟨var, by rw [flag?, flags_ground, ← flag?, found]⟩

theorem flag?_ground_of_ne (session : Session α) (batch : Batch α) {element : Element α}
    (different : element ≠ batch.element) :
    (session.ground batch).flag? element = session.flag? element := by
  rw [flag?, flags_ground, ← flag?]
  exact flag?_declareFlags_of_ne session different _

variable [Label α]

/-- The session in which a batch is grounded: all that was added is notes. -/
def announced (session : Session α) (batch : Batch α) : Session α :=
  (session.note .debug ("applying batch " ++ batchIdText session.batchCount ++ " for "
    ++ batch.element.text)).note .trace
      ("batch " ++ batchIdText session.batchCount ++ " is " ++ batch.text)

/-- The batch of a new element is applied when it is acceptable. -/
theorem apply_of_accepts {session : Session α} {batch : Batch α}
    (new : session.batchId? batch.element = none) (accepts : session.Accepts batch) :
    session.apply batch =
      (.ok session.batchCount,
        { (session.announced batch).ground batch with
          batches := session.batches ++ [batch] }) := by
  have passed := check_eq_ok.mpr accepts
  simp only [apply, new, passed]
  rw [batches_ground]
  rfl

theorem Accepts.announced {session : Session α} {batch : Batch α}
    (accepts : session.Accepts batch) : (session.announced batch).Accepts batch where
  endpoints := accepts.endpoints
  fits rule member := { accepts.fits rule member with }
  declared := accepts.declared

/-- Applying a batch that is not accepted, or is accepted already, leaves at most a note. -/
theorem apply_of_not_accepts {session : Session α} {batch : Batch α}
    (refused : ¬ (session.batchId? batch.element = none ∧ session.Accepts batch)) :
    (session.apply batch).2 = session ∨
      ∃ level text, (session.apply batch).2 = session.note level text := by
  unfold apply
  split
  · split
    · exact .inr ⟨_, _, rfl⟩
    · exact .inl rfl
  · rename_i new
    split
    · exact .inl rfl
    · rename_i passed
      exact absurd ⟨new, check_eq_ok.mp passed⟩ refused

/-- A batch is taken in, or it leaves at most a note. -/
theorem apply_cases (session : Session α) (batch : Batch α) :
    session.batchId? batch.element = none ∧ session.Accepts batch ∨
      (session.apply batch).2 = session ∨
        ∃ level text, (session.apply batch).2 = session.note level text :=
  (em _).imp_right apply_of_not_accepts

omit [Label α] in
/-- The invariant does not speak of notes, calls and the values of flags. -/
theorem Settled.congr {ledger : Ledger α} {session other : Session α}
    (settled : session.Settled ledger) (variableCount : other.variableCount = session.variableCount)
    (flagVars : other.flagVars = session.flagVars)
    (flagged : forall element, (other.flag? element).isSome = (session.flag? element).isSome)
    (derived : other.derived = session.derived) (sent : other.sent = session.sent)
    (selectors : other.selectors = session.selectors) (shown : other.shown = session.shown)
    (stale : other.stale = session.stale) (batches : other.batches = session.batches) :
    other.Settled ledger where
  toGrounded := by
    rw [batches]
    exact settled.toGrounded.congr variableCount flagVars derived sent selectors shown
  stale := stale.trans settled.stale
  flagged element := by rw [flagged, batches, settled.flagged]
  declares := batches ▸ settled.declares

omit [Label α] in
theorem Settled.note {ledger : Ledger α} {session : Session α} (settled : session.Settled ledger)
    (level : Level) (text : String) : (session.note level text).Settled ledger :=
  settled.congr rfl rfl (fun _ => rfl) rfl (sent_note session level text) rfl rfl rfl rfl

theorem Settled.announced {ledger : Ledger α} {session : Session α}
    (settled : session.Settled ledger) (batch : Batch α) :
    (session.announced batch).Settled ledger :=
  (settled.note _ _).note _ _

/-- Applying any batch keeps the invariant. -/
theorem Settled.apply {ledger : Ledger α} {session : Session α} (settled : session.Settled ledger)
    (batch : Batch α) : ∃ later, (session.apply batch).2.Settled later := by
  rcases session.apply_cases batch with ⟨new, accepts⟩ | same | ⟨level, text, noted⟩
  · have again := accepts.announced
    obtain ⟨later, grounded⟩ := (settled.announced batch).ground new again
    rw [apply_of_accepts new accepts]
    refine ⟨later, ?_, rfl, fun element => ?_, fun other member => ?_⟩
    · have rules : programOf (session.batches ++ [batch]) =
          programOf session.batches ++ batch.rules := by
        simp [programOf]
      rw [rules]
      exact grounded.congr rfl rfl rfl rfl rfl rfl
    · by_cases own : element = batch.element
      · obtain ⟨var, found⟩ := again.flag?_ground_self
        subst own
        exact iff_of_true (Option.isSome_iff_exists.mpr ⟨_, found⟩) ⟨batch, by simp, rfl⟩
      · have kept := flag?_ground_of_ne (session.announced batch) batch own
        have before := settled.flagged element
        simp only [List.mem_append, List.mem_singleton, or_and_right, exists_or, exists_eq_left,
          Ne.symm own, or_false, ← before]
        exact iff_of_eq (congrArg (Option.isSome · = true) kept)
    · rcases List.mem_append.mp member with old | added
      · exact settled.declares other old
      · cases List.mem_singleton.mp added
        intro atom
        constructor
        · exact fun listed => (accepts.fits _ listed).external atom rfl
        · rintro rfl
          exact accepts.declared
  · rw [same]
    exact ⟨ledger, settled⟩
  · rw [noted]
    exact ⟨ledger, settled.note level text⟩

end Argumentation.Session
