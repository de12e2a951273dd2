import Argumentation.Proofs.Session.Admission
import Argumentation.Proofs.Session.Turnover
import Argumentation.Proofs.Session.Vocabulary

/-!
# Selectors of completion clauses

Every derived atom has one current selector, and only one clause was ever sent about it: the
completion clause that lists all the bodies of the atom. `Session.Sole` says so for the atoms that
do not wait for a renewal. Other clauses are about the variables of atoms and bodies or about other
selectors, so they do not disturb it.
-/

namespace Argumentation

open Argumentation.Sat (Literal Clause Engine)

variable {α : Type} [DecidableEq α]

/-- The bodies of the derivations of an atom, in order. -/
def bodiesOf (derivations : List (Atom α × List (BodyLiteral α))) (atom : Atom α) :
    List (List (BodyLiteral α)) :=
  (derivations.filter fun derivation => derivation.1 = atom).map Prod.snd

/-- The variables that stand for the bodies of an atom stand for them in order. -/
theorem Ledger.forall₂_supports (ledger : Ledger α) (atom : Atom α) :
    List.Forall₂ (fun var body => ledger.role? var = some (.support atom body))
      (ledger.supports atom) (bodiesOf ledger.derivations atom) := by
  obtain ⟨roles⟩ := ledger
  induction roles using List.reverseRecOn with
  | nil => exact .nil
  | append_singleton roles role ih =>
    let before : Ledger α := ⟨roles⟩
    have pushed : (⟨roles ++ [role]⟩ : Ledger α) = before.push role := rfl
    have old : List.Forall₂ (fun var body =>
        (before.push role).role? var = some (.support atom body)) (before.supports atom)
        (bodiesOf before.derivations atom) := ih.imp fun _ _ => role?_push_of_some
    rw [pushed, supports_push, derivations_push, bodiesOf, List.filter_append, List.map_append]
    refine List.rel_append old ?_
    cases role with
    | support head body =>
      by_cases same : head = atom
      · subst same
        simp [Role.derivation?]
      · simp [Role.derivation?, same]
    | _ => simp [Role.derivation?]

namespace Session

variable {ledger : Ledger α} {rules : List (Rule α)} {pending waiting : List (Atom α)}
  {session other : Session α}

/-- The clauses sent about a variable, in order. -/
def about (session : Session α) (var : Nat) : List Clause :=
  session.sent.filter fun clause => clause.any fun literal => literal.var == var

/-- The completion clause of a derived atom that is not pending is the only clause about its
selector. -/
def Sole (pending : List (Atom α)) (session : Session α) : Prop :=
  forall entry, entry ∈ session.derived -> entry.atom ∉ pending -> forall selector,
    entry.selector = some selector -> session.about selector = [completionClause selector entry]

section Clauses

omit [DecidableEq α]

/-- Clauses about other variables make no difference. -/
theorem about_of_apart {clauses : List Clause} (sent : other.sent = session.sent ++ clauses)
    {var : Nat} (apart : forall clause, clause ∈ clauses -> forall literal, literal ∈ clause ->
      literal.var ≠ var) : other.about var = session.about var := by
  have none : clauses.filter (fun clause => clause.any fun literal => literal.var == var) = [] :=
    List.filter_eq_nil_iff.mpr fun clause member => by
      simpa using apart clause member
  rw [about, sent, List.filter_append, none, List.append_nil, about]

/-- The completion clauses stay alone when the clauses sent since then are about no selector. -/
theorem Sole.extend (sole : session.Sole pending) (selected : session.Selected ledger pending)
    {clauses : List Clause} (sent : other.sent = session.sent ++ clauses)
    (apart : forall clause, clause ∈ clauses -> forall literal, literal ∈ clause -> forall owner,
      ledger.role? literal.var ≠ some (.completion owner))
    (former : forall entry, entry ∈ other.derived -> entry.atom ∉ waiting ->
      entry.selector.isSome -> entry ∈ session.derived ∧ entry.atom ∉ pending) :
    other.Sole waiting := by
  intro entry member settled selector chosen
  obtain ⟨listed, before⟩ := former entry member settled (by simp [chosen])
  have role := selected.selectorRole entry listed selector chosen
  rw [about_of_apart sent fun clause inside literal one same =>
    apart clause inside literal one entry.atom (same ▸ role)]
  exact sole entry listed before selector chosen

theorem Sole.congr (sole : session.Sole pending) (derived : other.derived = session.derived)
    (sent : other.sent = session.sent) : other.Sole pending := by
  intro entry member settled selector chosen
  rw [about, sent]
  exact sole entry (derived ▸ member) settled selector chosen

end Clauses

section Rules

theorem Sole.atomVariable (sole : session.Sole session.stale) (atom : Atom α) :
    (session.atomVariable atom).2.Sole (session.atomVariable atom).2.stale := by
  cases found : session.varOf? atom with
  | some var =>
    simp only [Session.atomVariable, found]
    exact sole
  | none =>
    intro entry member settled selector chosen
    simp only [Session.atomVariable, found, fresh, List.mem_append, List.mem_singleton,
      not_or] at member settled
    rcases member with old | rfl
    · have same := sole entry old settled.1 selector chosen
      simpa [Session.atomVariable, found, fresh, about, sent] using same
    · cases chosen

theorem Sole.bodyLiterals (sole : session.Sole session.stale) (body : List (BodyLiteral α)) :
    (session.bodyLiterals body).2.Sole (session.bodyLiterals body).2.stale := by
  induction body generalizing session with
  | nil => exact sole
  | cons literal rest ih =>
    have first := sole.atomVariable literal.atom
    rw [← bodyLiteral_snd] at first
    exact ih first

/-- The variable of a known atom is no selector. -/
theorem Numbered.role_number (numbered : session.Numbered ledger) {atom : Atom α}
    (known : (session.varOf? atom).isSome) :
    ledger.role? (session.number atom) = some (.atom atom) := by
  obtain ⟨var, found⟩ := Option.isSome_iff_exists.mp known
  rw [number_of_varOf? found]
  exact numbered.role_of_varOf? found

theorem Sole.derive (sole : session.Sole session.stale)
    (grounded : session.Grounded ledger rules session.stale) {head : Atom α}
    {body : List (BodyLiteral α)} (headKnown : (session.varOf? head).isSome)
    (bodyKnown : forall literal, literal ∈ body -> (session.varOf? literal.atom).isSome) :
    (session.derive head body).Sole (session.derive head body).stale := by
  have unused : forall owner,
      ledger.role? (session.variableCount + 1) ≠ some (.completion owner) :=
    fun owner role => grounded.toNumbered.ne_next role rfl
  refine sole.extend grounded.toSelected (session.sent_derive head body)
    (fun clause member literal inside => ?_)
    fun entry member settled _ => mem_of_mem_derive member settled
  rcases List.mem_append.mp member with definition | implication
  · rcases mem_conjunctionClauses definition inside with same | ⟨other, listed, same⟩
    · rw [same]
      exact unused
    · obtain ⟨original, among, rfl⟩ := List.mem_map.mp listed
      simp [← same, grounded.toNumbered.role_number (bodyKnown original among)]
  · rw [List.mem_singleton.mp implication] at inside
    simp only [List.mem_cons, List.not_mem_nil, or_false] at inside
    rcases inside with rfl | rfl
    · exact unused
    · simp [Literal.pos, grounded.toNumbered.role_number headKnown]

theorem Sole.groundRule (sole : session.Sole session.stale)
    (grounded : session.Grounded ledger rules session.stale) {rule : Rule α}
    (groundable : session.Groundable rule) :
    (session.groundRule rule).Sole (session.groundRule rule).stale := by
  cases rule with
  | external atom => exact sole
  | declare atom => exact sole.atomVariable atom
  | display atom =>
    obtain ⟨derived, journal, _⟩ :=
      frame_display (session.atomVariable atom).2 atom (session.atomVariable atom).1
    have displayed := (sole.atomVariable atom).congr derived (by simp only [sent, journal])
    rw [← stale_display] at displayed
    exact displayed
  | derive head body =>
    obtain ⟨first, registered⟩ := grounded.atomVariable (groundable.declared head
      (by simp [Rule.atoms, Rule.head?]))
    have grows := session.grows_atomVariable head
    obtain ⟨second, literals⟩ := registered.bodyLiterals fun literal inside structural =>
      grows.isSome (groundable.body literal inside structural)
    have headKnown : ((session.atomVariable head).2.varOf? head).isSome := by
      simp [varOf?_atomVariable]
    rw [groundRule_derive]
    exact ((sole.atomVariable head).bodyLiterals body).derive literals
      ((grows_bodyLiterals _ body).isSome headKnown) (isSome_bodyLiterals _ body)
  | constraint body =>
    obtain ⟨later, literals⟩ := grounded.bodyLiterals
      fun (literal : BodyLiteral α) (inside : literal ∈ body) structural =>
        groundable.body literal inside structural
    refine (sole.bodyLiterals body).extend literals.toSelected (sent_send _ _)
      (fun clause member literal inside => ?_) fun entry member settled _ => ⟨member, settled⟩
    rw [List.mem_singleton.mp member, bodyLiterals_fst] at inside
    simp only [List.map_map, List.mem_map, Function.comp_apply] at inside
    obtain ⟨original, listed, rfl⟩ := inside
    have role := literals.toNumbered.role_number (session.isSome_bodyLiterals body original listed)
    simp [Literal.negate, role]

theorem Sole.foldl_groundRule (sole : session.Sole session.stale)
    (grounded : session.Grounded ledger rules session.stale) {more : List (Rule α)}
    (groundable : forall rule, rule ∈ more -> session.Groundable rule) :
    (more.foldl Session.groundRule session).Sole
      (more.foldl Session.groundRule session).stale := by
  induction more generalizing session ledger rules with
  | nil => exact sole
  | cons rule rest ih =>
    have first := groundable rule List.mem_cons_self
    obtain ⟨later, taken⟩ := grounded.groundRule first
    exact ih (sole.groundRule grounded first) taken fun other member =>
      (groundable other (List.mem_cons_of_mem rule member)).grows (session.grows_groundRule rule)

end Rules

section Renewals

variable {atom : Atom α} {entry : Derived α}

/-- Nothing was sent about a variable that was not drawn. -/
theorem Accounted.about_next (accounted : session.Accounted ledger rules pending)
    (numbered : session.Numbered ledger) : session.about (session.variableCount + 1) = [] := by
  refine List.filter_eq_nil_iff.mpr fun clause member => ?_
  simp only [List.any_eq_true, beq_iff_eq, not_exists, not_and]
  intro literal inside
  obtain ⟨role, found⟩ := Option.isSome_iff_exists.mp
    (accounted.inUse clause member literal inside)
  exact numbered.ne_next found

/-- The literals of a new completion clause are about its selector or about no selector. -/
theorem Recorded.apart_completion (recorded : session.Recorded ledger rules)
    (numbered : session.Numbered ledger) (listed : entry ∈ session.derived) {selector : Nat}
    {literal : Literal} (inside : literal ∈ completionClause selector entry) :
    literal.var = selector ∨ forall owner, ledger.role? literal.var ≠ some (.completion owner) := by
  simp only [completionClause, List.mem_cons, List.mem_map] at inside
  rcases inside with rfl | rfl | ⟨support, body, rfl⟩
  · exact .inl rfl
  · have role := numbered.role_of_varOf? (numbered.varOf?_derived listed)
    exact .inr fun owner => by simp [Literal.neg, role]
  · rw [recorded.bodies entry listed, Ledger.mem_supports] at body
    obtain ⟨conditions, role⟩ := body
    exact .inr fun owner => by simp [Literal.pos, role]

theorem Sole.renewCompletion (sole : session.Sole (atom :: pending))
    (grounded : session.Grounded ledger rules (atom :: pending)) :
    (session.renewCompletion atom).Sole pending := by
  cases found : session.derived? atom with
  | none =>
    have unchanged : session.renewCompletion atom = session := by
      simp [Session.renewCompletion, found]
    have absent : forall entry, entry ∈ session.derived -> entry.atom ≠ atom := by
      intro entry member same
      have known := grounded.toNumbered.derived?_eq_some.mpr ⟨member, same⟩
      simp [found] at known
    rw [unchanged]
    exact fun entry member settled =>
      sole entry member (by simp [settled, absent entry member])
  | some entry =>
    obtain ⟨listed, owned⟩ := grounded.toNumbered.derived?_eq_some.mp found
    have sent := sent_renewCompletion found
    intro other member settled selector chosen
    rcases (grounded.toNumbered.mem_renewCompletion found).mp member with rfl | ⟨former, different⟩
    · cases chosen
      -- Nothing was about the new selector, and the clause that excludes the old one is not.
      have old : forall clause, clause ∈ entry.selector.toList.map (fun old => [Literal.neg old]) ->
          ¬ clause.any fun literal => literal.var == session.variableCount + 1 := by
        intro clause inside
        obtain ⟨replaced, was, rfl⟩ := List.mem_map.mp inside
        have role := grounded.selectorRole entry listed replaced (by simpa using was)
        simpa [Literal.neg] using grounded.toNumbered.ne_next role
      rw [about, sent, List.filter_append, ← about,
        grounded.toAccounted.about_next grounded.toNumbered, List.filter_append,
        List.filter_eq_nil_iff.mpr old]
      simp [completionClause, Literal.neg]
    · -- Two atoms never share a selector, so what is sent here is not about that of the other one.
      have role := grounded.selectorRole other former selector chosen
      rw [about_of_apart sent fun clause among literal inside same => ?_]
      · exact sole other former (by simp [settled, different]) selector chosen
      · rw [← same] at role
        rcases List.mem_append.mp among with retiring | completing
        · obtain ⟨replaced, was, rfl⟩ := List.mem_map.mp retiring
          rw [List.mem_singleton.mp inside] at same
          have owner := grounded.toSelected.atom_unique former listed chosen
            (by simpa [Literal.neg, ← same] using was)
          exact different (owner.trans owned)
        · rw [List.mem_singleton.mp completing] at inside
          rcases grounded.toRecorded.apart_completion grounded.toNumbered listed inside with
            next | apart
          · exact grounded.toNumbered.ne_next role next
          · exact apart _ role

theorem Sole.foldl_renewCompletion (sole : session.Sole pending)
    (grounded : session.Grounded ledger rules pending) :
    (pending.foldl Session.renewCompletion session).Sole [] := by
  induction pending generalizing session ledger with
  | nil => exact sole
  | cons atom rest ih =>
    obtain ⟨later, renewed⟩ := grounded.renewCompletion
    exact ih (sole.renewCompletion grounded) renewed

end Renewals

section Runs

variable [Label α]

/-- A batch renews the completion clauses of the atoms to which it brings bodies. -/
theorem Sole.apply (sole : session.Sole []) (settled : session.Settled ledger)
    (batch : Batch α) : (session.apply batch).2.Sole [] := by
  rcases session.apply_cases batch with ⟨new, accepts⟩ | same | ⟨level, text, noted⟩
  · obtain ⟨first, declared⟩ := (settled.announced batch).declared new
    have stale : ((session.announced batch).declared batch).stale = [] :=
      (stale_declareFlags _ _ _).trans settled.stale
    have journal : ((session.announced batch).declared batch).journal =
        (session.announced batch).journal := (frame_declareFlags _ _ _).2
    have flagged : ((session.announced batch).declared batch).Sole
        ((session.announced batch).declared batch).stale := by
      rw [stale]
      refine sole.congr (frame_declareFlags _ _ _).1 ?_
      rw [sent, journal]
      exact (sent_note _ _ _).trans (sent_note session _ _)
    have groundable := accepts.announced.groundable declared.toNumbered
    have rules := flagged.foldl_groundRule declared groundable
    obtain ⟨second, taken⟩ := declared.foldl_groundRule groundable
    have renewed := rules.foldl_renewCompletion taken
    rw [apply_of_accepts new accepts]
    exact renewed.congr rfl rfl
  · rw [same]
    exact sole
  · rw [noted]
    exact sole.congr rfl (sent_note session level text)

omit [Label α] in
/-- The clauses of an enumeration are about its own selector and visible atoms. -/
theorem Sole.solve (sole : session.Sole []) (settled : session.Settled ledger)
    (engine : Engine) (deadline : Deadline) : (session.solve engine deadline).2.Sole [] := by
  obtain ⟨models, made, sent, _⟩ := session.exists_sent_solve engine deadline
  have unused : forall owner,
      ledger.role? (session.variableCount + 1) ≠ some (.completion owner) :=
    fun owner role => settled.toNumbered.ne_next role rfl
  refine sole.extend settled.toSelected sent (fun clause member literal inside => ?_)
    fun entry member settled _ => ⟨(session.keeps_solve engine deadline).derived ▸ member, settled⟩
  rcases List.mem_append.mp member with blocking | closing
  · obtain ⟨model, _, rfl⟩ := List.mem_map.mp blocking
    rcases List.mem_cons.mp inside with rfl | shown
    · exact unused
    · obtain ⟨entry, listed, rfl⟩ := List.mem_map.mp shown
      simp [settled.toGrounded.isSome_role?_shown listed]
  · rw [List.mem_singleton.mp closing] at inside
    rw [List.mem_singleton.mp inside]
    exact unused

theorem Sole.perform (sole : session.Sole []) (settled : session.Settled ledger)
    (request : Request α) : (session.perform request).Sole [] := by
  cases request with
  | apply batch => exact sole.apply settled batch
  | setFlag element value =>
    obtain ⟨_, derived, _, sent, _⟩ := session.frame_setFlag element value
    exact sole.congr derived sent
  | solve engine deadline => exact sole.solve settled engine deadline
  | findModel engine atoms =>
    rcases session.findModel_cases engine atoms with same | ⟨literals, _, asked⟩
    · rw [Session.perform, same]
      exact sole
    · rw [Session.perform, asked]
      exact sole.congr rfl (session.sent_ask engine _)

theorem sole_run (requests : List (Request α)) : (run requests).Sole [] := by
  induction requests using List.reverseRecOn with
  | nil => simp [run, empty, Sole]
  | append_singleton requests request ih =>
    obtain ⟨ledger, settled⟩ := settled_run requests
    rw [run_append_singleton]
    exact ih.perform settled request

omit [Label α] in
/-- The body variables of a derived atom stand for the bodies of its derivations, in order. -/
theorem Grounded.forall₂_bodies (grounded : session.Grounded ledger rules pending)
    {entry : Derived α} (listed : entry ∈ session.derived) :
    List.Forall₂ (fun var body =>
        conjunctionClauses var (body.map session.literal) ⊆ session.sent ∧
          [.neg var, .pos (session.number entry.atom)] ∈ session.sent)
      entry.bodies (bodiesOf (derivations rules) entry.atom) := by
  rw [grounded.bodies entry listed, ← grounded.derivations]
  refine (ledger.forall₂_supports entry.atom).imp fun var body role => ⟨fun clause member => ?_, ?_⟩
  · exact grounded.required clause (.definition role member)
  · exact grounded.required _ (.derivation role)

omit [Label α] in
/-- The derived atoms are the known atoms that are not structural. -/
theorem Numbered.isSome_derived? (numbered : session.Numbered ledger) {atom : Atom α} :
    (session.derived? atom).isSome ↔ atom.isStructural = false ∧ (session.varOf? atom).isSome := by
  cases structural : atom.isStructural with
  | true => simp [numbered.derived?_structural structural]
  | false => simp [varOf?_of_plain session structural]

omit [Label α] in
/-- The current selectors are those of the entries, each of which has one. -/
theorem Settled.map_some_currents (settled : session.Settled ledger) :
    session.currents.map some = session.derived.map Derived.selector := by
  rw [currents, List.map_filterMap, ← List.filterMap_eq_map]
  refine List.filterMap_congr fun entry listed => ?_
  obtain ⟨selector, chosen, _⟩ := settled.current entry listed (List.not_mem_nil)
  simp [chosen]

omit [Label α] in
/-- The assumed selectors are the current ones, in another order. -/
theorem Settled.members_perm (settled : session.Settled ledger) (once : session.currents.Nodup) :
    session.selectors.members.Perm session.currents :=
  (List.perm_ext_iff_of_nodup settled.roster.nodup_members once).mpr fun selector => by
    rw [settled.members, currents, List.mem_filterMap]

theorem nodup_uses_run (requests : List (Request α)) :
    ((run requests).uses ++ (retired requests ++ enumerations requests)).Nodup :=
  (uses_run requests).1.nodup_iff.mpr List.nodup_range'

/-- After any run, the selectors that every call assumes are those of the derived atoms, one for each
atom that the rules mention, and their places are recorded as they are. A selector that was replaced
is not among them and has been excluded. The only clause ever sent about the selector of a derived
atom makes the atom imply one of the bodies of its derivations in the batches of the run, each of
which has a variable of its own that is equivalent to it and implies the atom. -/
theorem selectors_run (requests : List (Request α)) :
    let session := run requests
    let program := programOf (admitted requests)
    (forall atom, (session.derived? atom).isSome ↔
        atom.isStructural = false ∧ Mentions program atom) ∧
      (session.selectors.members.map some).Perm (session.derived.map Derived.selector) ∧
      session.selectors.members.Nodup ∧ session.selectors.Consistent ∧
      (forall selector, selector ∈ retired requests -> selector ∉ session.selectors.members ∧
        session.selectors.places.get? selector = none ∧ [.neg selector] ∈ session.sent) ∧
      forall atom entry, session.derived? atom = some entry ->
        session.varOf? atom = some entry.var ∧
          ∃ selector, entry.selector = some selector ∧ selector ∈ session.selectors.members ∧
            session.about selector =
              [.neg selector :: .neg entry.var :: entry.bodies.map Literal.pos] ∧
            entry.bodies.Nodup ∧
            List.Forall₂ (fun var body =>
                conjunctionClauses var (body.map session.literal) ⊆ session.sent ∧
                  [.neg var, .pos entry.var] ∈ session.sent)
              entry.bodies (bodiesOf (derivations program) atom) := by
  intro session program
  obtain ⟨ledger, settled⟩ := settled_run requests
  have program_eq : programOf session.batches = program := by
    rw [batches_run requests]
  obtain ⟨distinct, _, apart⟩ := List.nodup_append.mp (nodup_uses_run requests)
  have once : session.currents.Nodup := (List.nodup_append.mp distinct).2.1
  have members := settled.members_perm once
  refine ⟨fun atom => ?_, ?_, settled.roster.nodup_members, settled.roster,
    fun selector gone => ?_, fun atom entry found => ?_⟩
  · rw [← program_eq, ← isSome_varOf?_run requests atom]
    exact settled.toNumbered.isSome_derived?
  · rw [← settled.map_some_currents]
    exact members.map some
  · have past : selector ∈ retired requests ++ enumerations requests :=
      List.mem_append_left _ gone
    have absent : selector ∉ session.selectors.members := fun member =>
      apart selector (List.mem_append_right _ (members.mem_iff.mp member)) selector past rfl
    refine ⟨absent, ?_, (uses_run requests).2 selector past⟩
    rwa [settled.roster.mem_members_iff, Option.not_isSome_iff_eq_none] at absent
  · obtain ⟨listed, rfl⟩ := settled.toNumbered.derived?_eq_some.mp found
    have known := settled.toNumbered.varOf?_derived listed
    obtain ⟨selector, chosen, _⟩ := settled.current entry listed List.not_mem_nil
    have bodies := (List.nodup_append.mp (List.nodup_append.mp distinct).1).2.1
    have supports := settled.toGrounded.forall₂_bodies listed
    rw [program_eq, number_of_varOf? known] at supports
    exact ⟨known, selector, chosen, (settled.members selector).mpr ⟨entry, listed, chosen⟩,
      sole_run requests entry listed List.not_mem_nil selector chosen,
      (List.nodup_flatMap.mp bodies).1 entry listed, supports⟩

end Runs

end Session

end Argumentation
