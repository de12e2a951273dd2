import Argumentation.Proofs.Program.Completion
import Argumentation.Proofs.Session.Numbering
import Argumentation.Proofs.Session.Roster

/-!
# The grounding invariant

`Session.Grounded` ties the clauses, the tables and the selectors of a session to the rules that it
has taken in, through a ledger of its variables. The clauses that the rules require were sent, and
every other clause is switched off: it is guarded by a selector that is out of use, or by that of a
completion clause which some atom is still waiting for.

Every operation sends clauses or gives the next variable a role. `Grounded.enlarge` and
`Grounded.send` say when this keeps the invariant.
-/

namespace Argumentation.Session

open Argumentation.Sat (Literal Clause)

variable {α : Type}

/-- The clauses sent to the engine, in order. -/
def sent (session : Session α) : List Clause :=
  session.journal.clauses

@[simp]
theorem sent_send (session : Session α) (clause : Clause) :
    (session.send clause).sent = session.sent ++ [clause] := by
  simp [sent, send, Journal.clauses]

@[simp]
theorem sent_note (session : Session α) (level : Level) (text : String) :
    (session.note level text).sent = session.sent := by
  simp [sent, note, Journal.clauses]

/-- An atom that some rule mentions. -/
def Mentions (rules : List (Rule α)) (atom : Atom α) : Prop :=
  ∃ rule, rule ∈ rules ∧ atom ∈ rule.atoms

theorem Mentions.head {rules : List (Rule α)} {head : Atom α} {body : List (BodyLiteral α)}
    (member : .derive head body ∈ rules) : Mentions rules head :=
  ⟨_, member, by simp [Rule.atoms, Rule.head?]⟩

theorem Mentions.body {rules : List (Rule α)} {rule : Rule α} {literal : BodyLiteral α}
    (member : rule ∈ rules) (inside : literal ∈ rule.body) : Mentions rules literal.atom :=
  ⟨rule, member, List.mem_append_right _ (List.mem_map.mpr ⟨literal, inside, rfl⟩)⟩

variable [DecidableEq α]

/-- The clauses that the recorded bodies and the constraints require. -/
inductive RuleClause (ledger : Ledger α) (rules : List (Rule α)) (session : Session α) :
    Clause -> Prop where
  | definition {var head body clause} (role : ledger.role? var = some (.support head body))
      (member : clause ∈ conjunctionClauses var (body.map session.literal)) :
      RuleClause ledger rules session clause
  | derivation {var head body} (role : ledger.role? var = some (.support head body)) :
      RuleClause ledger rules session [.neg var, .pos (session.number head)]
  | constraint {body} (member : .constraint body ∈ rules) :
      RuleClause ledger rules session ((body.map session.literal).map Literal.negate)

/-- A clause that some selector keeps from saying more than the completion clause of an atom that is
not pending. -/
def Guarded (ledger : Ledger α) (pending : List (Atom α)) (session : Session α)
    (clause : Clause) : Prop :=
  ∃ selector, .neg selector ∈ clause ∧
    (ledger.role? selector = some .enumeration ∨
      (∃ atom, ledger.role? selector = some (.completion atom)) ∧
        forall entry, entry ∈ session.derived -> entry.selector = some selector ->
          entry.atom ∈ pending ∨ clause = completionClause selector entry)

/-- The tables of a session hold what its rules say. -/
structure Recorded (ledger : Ledger α) (rules : List (Rule α)) (session : Session α) : Prop where
  derivations : ledger.derivations = derivations rules
  bodies : forall entry, entry ∈ session.derived -> entry.bodies = ledger.supports entry.atom
  heads : forall head body, .derive head body ∈ rules -> head.isStructural = false
  known : forall rule, rule ∈ rules -> forall atom, atom ∈ rule.atoms ->
    (session.varOf? atom).isSome
  labels : session.shown.map Prod.fst = visible rules
  shown : forall label var, (label, var) ∈ session.shown ->
    session.varOf? (.inside label) = some var

/-- The assumed selectors are those of the derived atoms, the completion clauses of the atoms that
are not pending are in force, and selectors that were replaced are false for good. -/
structure Selected (ledger : Ledger α) (pending : List (Atom α)) (session : Session α) : Prop where
  selectorRole : forall entry, entry ∈ session.derived -> forall selector,
    entry.selector = some selector -> ledger.role? selector = some (.completion entry.atom)
  roster : session.selectors.Consistent
  members : forall selector, selector ∈ session.selectors.members ↔
    ∃ entry, entry ∈ session.derived ∧ entry.selector = some selector
  current : forall entry, entry ∈ session.derived -> entry.atom ∉ pending ->
    ∃ selector, entry.selector = some selector ∧ completionClause selector entry ∈ session.sent
  retired : forall selector atom, ledger.role? selector = some (.completion atom) ->
    selector ∉ session.selectors.members -> [.neg selector] ∈ session.sent

/-- The clauses sent are the required ones, and others that are switched off. -/
structure Accounted (ledger : Ledger α) (rules : List (Rule α)) (pending : List (Atom α))
    (session : Session α) : Prop where
  required : forall clause, RuleClause ledger rules session clause -> clause ∈ session.sent
  reasons : forall clause, clause ∈ session.sent ->
    RuleClause ledger rules session clause ∨ Guarded ledger pending session clause
  inUse : forall clause, clause ∈ session.sent -> forall literal, literal ∈ clause ->
    (ledger.role? literal.var).isSome

/-- A session that has taken in some rules, up to the completion clauses of the pending atoms. -/
structure Grounded (ledger : Ledger α) (rules : List (Rule α)) (pending : List (Atom α))
    (session : Session α) : Prop extends
  Numbered ledger session, Recorded ledger rules session, Selected ledger pending session,
  Accounted ledger rules pending session

theorem Mentions.visible {rules : List (Rule α)} {label : α} (member : label ∈ visible rules) :
    Mentions rules (.inside label) :=
  ⟨_, mem_visible.mp member, by simp [Rule.atoms, Rule.head?]⟩

theorem Recorded.isSome_varOf? {ledger : Ledger α} {rules : List (Rule α)} {session : Session α}
    (recorded : session.Recorded ledger rules) {atom : Atom α} (mentions : Mentions rules atom) :
    (session.varOf? atom).isSome := by
  obtain ⟨rule, member, inside⟩ := mentions
  exact recorded.known rule member atom inside

/-- The derivations of the rules are those whose bodies have a variable. -/
theorem Recorded.derive_mem_iff {ledger : Ledger α} {rules : List (Rule α)} {session : Session α}
    (recorded : session.Recorded ledger rules) {head : Atom α} {body : List (BodyLiteral α)} :
    .derive head body ∈ rules ↔ ∃ var, ledger.role? var = some (.support head body) := by
  rw [← mem_derivations, ← recorded.derivations, Ledger.mem_derivations]

/-- What the rules require stays required as long as the atoms that they mention keep their
variables. -/
theorem RuleClause.transfer {ledger later : Ledger α} {rules more : List (Rule α)}
    {session other : Session α} {clause : Clause} (reason : RuleClause ledger rules session clause)
    (derive : forall var head body, ledger.role? var = some (.support head body) ->
      .derive head body ∈ rules)
    (roles : forall var head body, ledger.role? var = some (.support head body) ->
      later.role? var = some (.support head body))
    (included : forall rule, rule ∈ rules -> rule ∈ more)
    (agree : forall atom, Mentions rules atom -> other.varOf? atom = session.varOf? atom) :
    RuleClause later more other clause := by
  have literals : forall rule, rule ∈ rules ->
      rule.body.map other.literal = rule.body.map session.literal := fun rule member =>
    List.map_congr_left fun literal inside =>
      literal_congr (agree literal.atom (Mentions.body member inside))
  cases reason with
  | @definition var head body _ role member =>
    have same := literals _ (derive var head body role)
    simp only [Rule.body] at same
    exact .definition (roles var head body role) (same ▸ member)
  | @derivation var head body role =>
    have same : other.number head = session.number head :=
      number_congr (agree head (Mentions.head (derive var head body role)))
    exact same ▸ .derivation (roles var head body role)
  | @constraint body member =>
    have same := literals _ member
    simp only [Rule.body] at same
    exact same ▸ .constraint (included _ member)

/-- A clause stays switched off as long as its selector gets no new entry with a settled atom. -/
theorem Guarded.transfer {ledger later : Ledger α} {pending waiting : List (Atom α)}
    {session other : Session α} {clause : Clause} (guarded : Guarded ledger pending session clause)
    (keeps : forall var role, ledger.role? var = some role -> later.role? var = some role)
    (settled : forall entry, entry ∈ other.derived -> entry.selector.isSome ->
      entry.atom ∉ waiting -> entry ∈ session.derived)
    (wait : forall atom, atom ∈ pending -> atom ∈ waiting) :
    Guarded later waiting other clause := by
  obtain ⟨selector, inside, idle | ⟨⟨atom, role⟩, replaced⟩⟩ := guarded
  · exact ⟨selector, inside, .inl (keeps _ _ idle)⟩
  · refine ⟨selector, inside, .inr ⟨⟨atom, keeps _ _ role⟩, fun entry listed chosen => ?_⟩⟩
    by_cases waits : entry.atom ∈ waiting
    · exact .inl waits
    · have former := settled entry listed (by simp [chosen]) waits
      exact (replaced entry former chosen).imp_left (wait _)

/-- A session with further derived atoms, which wait for their completion clause. The atoms that
the rules mention keep their variables. -/
structure Enlarges (rules : List (Rule α)) (pending waiting : List (Atom α))
    (added : List (Derived α)) (session other : Session α) : Prop where
  agree : forall atom, Mentions rules atom -> other.varOf? atom = session.varOf? atom
  derived : other.derived = session.derived ++ added
  blank : forall entry, entry ∈ added -> entry.bodies = [] ∧ entry.selector = none ∧
    entry.atom ∈ waiting ∧ session.varOf? entry.atom = none
  wait : forall atom, atom ∈ pending -> atom ∈ waiting
  sent : other.sent = session.sent
  selectors : other.selectors = session.selectors
  shown : other.shown = session.shown

section Enlarges

variable {ledger later : Ledger α} {rules : List (Rule α)} {pending waiting : List (Atom α)}
  {added : List (Derived α)} {session other : Session α}

/-- An entry with a selector was there before. -/
theorem Enlarges.mem_of_selector (enlarges : Enlarges rules pending waiting added session other)
    {entry : Derived α} (member : entry ∈ other.derived) {selector : Nat}
    (chosen : entry.selector = some selector) : entry ∈ session.derived := by
  rcases List.mem_append.mp (enlarges.derived ▸ member) with before | new
  · exact before
  · simp [(enlarges.blank entry new).2.1] at chosen

theorem Enlarges.mem (enlarges : Enlarges rules pending waiting added session other)
    {entry : Derived α} (member : entry ∈ session.derived) : entry ∈ other.derived :=
  enlarges.derived ▸ List.mem_append_left _ member

theorem Recorded.enlarge (recorded : session.Recorded ledger rules)
    (continues : ledger.Continues later)
    (enlarges : Enlarges rules pending waiting added session other) :
    other.Recorded later rules where
  derivations := continues.derivations.trans recorded.derivations
  bodies entry member := by
    rw [continues.supports]
    rcases List.mem_append.mp (enlarges.derived ▸ member) with before | new
    · exact recorded.bodies entry before
    · -- Nothing is recorded for an atom that no rule mentions.
      obtain ⟨empty, _, _, unknown⟩ := enlarges.blank entry new
      rw [empty, eq_comm, List.eq_nil_iff_forall_not_mem]
      intro var inside
      obtain ⟨body, role⟩ := Ledger.mem_supports.mp inside
      have mentions := Mentions.head (recorded.derive_mem_iff.mpr ⟨var, role⟩)
      simpa [unknown] using recorded.isSome_varOf? mentions
  heads := recorded.heads
  known rule member atom inside := by
    rw [enlarges.agree atom ⟨rule, member, inside⟩]
    exact recorded.known rule member atom inside
  labels := by rw [enlarges.shown, recorded.labels]
  shown label var member := by
    rw [enlarges.shown] at member
    have listed : label ∈ visible rules := recorded.labels ▸ List.mem_map.mpr ⟨_, member, rfl⟩
    rw [enlarges.agree _ (Mentions.visible listed)]
    exact recorded.shown label var member

theorem Selected.enlarge (selected : session.Selected ledger pending)
    (continues : ledger.Continues later)
    (enlarges : Enlarges rules pending waiting added session other) :
    other.Selected later waiting where
  selectorRole entry member selector chosen := continues.keeps _ _
    (selected.selectorRole entry (enlarges.mem_of_selector member chosen) selector chosen)
  roster := enlarges.selectors ▸ selected.roster
  members selector := by
    rw [enlarges.selectors, selected.members]
    constructor
    · rintro ⟨entry, member, chosen⟩
      exact ⟨entry, enlarges.mem member, chosen⟩
    · rintro ⟨entry, member, chosen⟩
      exact ⟨entry, enlarges.mem_of_selector member chosen, chosen⟩
  current entry member settled := by
    rw [enlarges.sent]
    rcases List.mem_append.mp (enlarges.derived ▸ member) with before | new
    · exact selected.current entry before fun waits => settled (enlarges.wait _ waits)
    · exact absurd (enlarges.blank entry new).2.2.1 settled
  retired selector atom role absent := by
    rw [enlarges.sent]
    rw [enlarges.selectors] at absent
    exact selected.retired selector atom (continues.completion selector atom role) absent

theorem Accounted.enlarge (accounted : session.Accounted ledger rules pending)
    (recorded : session.Recorded ledger rules) (continues : ledger.Continues later)
    (enlarges : Enlarges rules pending waiting added session other) :
    other.Accounted later rules waiting where
  required clause reason := by
    rw [enlarges.sent]
    refine accounted.required clause (reason.transfer (fun var head body role => ?_)
      (fun _ _ _ => continues.support_iff.mp) (fun _ member => member)
      fun atom mentions => (enlarges.agree atom mentions).symm)
    exact recorded.derive_mem_iff.mpr ⟨var, continues.support_iff.mp role⟩
  reasons clause member := by
    rw [enlarges.sent] at member
    rcases accounted.reasons clause member with required | guarded
    · refine .inl (required.transfer (fun var head body role => ?_)
        (fun _ _ _ => continues.keeps _ _) (fun _ member => member) enlarges.agree)
      exact recorded.derive_mem_iff.mpr ⟨var, role⟩
    · refine .inr (guarded.transfer continues.keeps (fun entry listed chosen _ => ?_)
        enlarges.wait)
      obtain ⟨selector, same⟩ := Option.isSome_iff_exists.mp chosen
      exact enlarges.mem_of_selector listed same
  inUse clause member literal inside := by
    rw [enlarges.sent] at member
    obtain ⟨role, found⟩ := Option.isSome_iff_exists.mp
      (accounted.inUse clause member literal inside)
    exact Option.isSome_iff_exists.mpr ⟨role, continues.keeps _ _ found⟩

/-- The invariant survives a change that gives variables to atoms no rule mentions, or for uses
that need no clause. -/
theorem Grounded.enlarge (grounded : session.Grounded ledger rules pending)
    (continues : ledger.Continues later) (numbered : other.Numbered later)
    (added : List (Derived α))
    (enlarges : Enlarges rules pending waiting added session other) :
    other.Grounded later rules waiting where
  toNumbered := numbered
  toRecorded := grounded.toRecorded.enlarge continues enlarges
  toSelected := grounded.toSelected.enlarge continues enlarges
  toAccounted := grounded.toAccounted.enlarge grounded.toRecorded continues enlarges

/-- The invariant does not speak of notes, calls, batches and the values of flags. -/
theorem Grounded.congr (grounded : session.Grounded ledger rules pending)
    (variableCount : other.variableCount = session.variableCount)
    (flagVars : other.flagVars = session.flagVars) (derived : other.derived = session.derived)
    (sent : other.sent = session.sent) (selectors : other.selectors = session.selectors)
    (shown : other.shown = session.shown) : other.Grounded ledger rules pending := by
  have atomVars : other.atomVars = session.atomVars := by rw [Session.atomVars, derived]; rfl
  refine grounded.enlarge (.refl ledger) (grounded.toNumbered.congr variableCount flagVars atomVars)
    [] ⟨?_, by simp [derived], by simp, fun _ waits => waits, sent, selectors, shown⟩
  exact fun atom _ => varOf?_congr flagVars atomVars atom

end Enlarges

omit [DecidableEq α] in
/-- Further clauses do not disturb the selectors. -/
theorem Selected.congr {ledger : Ledger α} {pending : List (Atom α)} {session other : Session α}
    (selected : session.Selected ledger pending) (derived : other.derived = session.derived)
    (selectors : other.selectors = session.selectors) (sent : session.sent ⊆ other.sent) :
    other.Selected ledger pending where
  selectorRole := by simpa only [derived] using selected.selectorRole
  roster := selectors ▸ selected.roster
  members := by simpa only [derived, selectors] using selected.members
  current entry member settled := by
    obtain ⟨selector, chosen, inside⟩ := selected.current entry (derived ▸ member) settled
    exact ⟨selector, chosen, sent inside⟩
  retired selector atom role absent :=
    sent (selected.retired selector atom role (selectors ▸ absent))

/-- The invariant survives a clause that the rules require or that is switched off. -/
theorem Grounded.send {ledger : Ledger α} {rules : List (Rule α)} {pending : List (Atom α)}
    {session : Session α} (grounded : session.Grounded ledger rules pending) {clause : Clause}
    (reason : RuleClause ledger rules session clause ∨ Guarded ledger pending session clause)
    (inUse : forall literal, literal ∈ clause -> (ledger.role? literal.var).isSome) :
    (session.send clause).Grounded ledger rules pending where
  toNumbered := grounded.toNumbered.congr rfl rfl rfl
  toRecorded := { grounded.toRecorded with }
  toSelected := grounded.toSelected.congr rfl rfl (by simp)
  required other required := by
    have before := grounded.required other (required.transfer
      (fun var head body role => grounded.toRecorded.derive_mem_iff.mpr ⟨var, role⟩)
      (fun _ _ _ role => role) (fun _ member => member) fun _ _ => rfl)
    simp [before]
  reasons other member := by
    rw [sent_send, List.mem_append, List.mem_singleton] at member
    have given : RuleClause ledger rules session other ∨ Guarded ledger pending session other := by
      rcases member with before | rfl
      · exact grounded.reasons other before
      · exact reason
    refine given.imp_left fun required => required.transfer (fun var head body role => ?_)
      (fun _ _ _ role => role) (fun _ member => member) fun _ _ => rfl
    exact grounded.toRecorded.derive_mem_iff.mpr ⟨var, role⟩
  inUse other member := by
    rw [sent_send, List.mem_append, List.mem_singleton] at member
    rcases member with before | rfl
    · exact grounded.inUse other before
    · exact inUse

theorem Grounded.empty : (empty : Session α).Grounded {} [] [] where
  toNumbered := .empty
  derivations := rfl
  bodies := by simp [Session.empty]
  heads := by simp
  known := by simp
  labels := rfl
  shown := by simp [Session.empty]
  selectorRole := by simp [Session.empty]
  roster := .empty
  members := by simp [Session.empty]
  current := by simp [Session.empty]
  retired selector atom role := by simp at role
  required clause reason := by
    cases reason with
    | definition role | derivation role => simp at role
    | constraint member => simp at member
  reasons := by simp [Session.empty, sent, Journal.clauses]
  inUse := by simp [Session.empty, sent, Journal.clauses]

end Argumentation.Session
