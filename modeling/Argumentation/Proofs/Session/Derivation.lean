import Argumentation.Proofs.Session.Adoption

/-!
# Grounding rules

A derivation is recorded under a variable of its own, which stands for its body, and its head has to
wait for a new completion clause. `Grounded.groundRule` says that the invariant holds for the rules
with a new one, whatever rule that is.
-/

namespace Argumentation.Session

open Argumentation.Sat (Literal Clause)

variable {α : Type} [DecidableEq α]

section Derive

variable {ledger : Ledger α} {rules : List (Rule α)} {session : Session α}

omit [DecidableEq α] in
/-- The clauses of a conjunction speak of its variable and of its literals. -/
theorem mem_conjunctionClauses {var : Nat} {literals : List Literal} {clause : Clause}
    (member : clause ∈ conjunctionClauses var literals) {one : Literal} (inside : one ∈ clause) :
    one.var = var ∨ ∃ other, other ∈ literals ∧ other.var = one.var := by
  simp only [conjunctionClauses, List.mem_append, List.mem_map, List.mem_singleton] at member
  rcases member with ⟨other, listed, rfl⟩ | rfl
  · simp only [List.mem_cons, List.not_mem_nil, or_false] at inside
    rcases inside with rfl | rfl
    · exact .inl rfl
    · exact .inr ⟨one, listed, rfl⟩
  · rcases List.mem_append.mp inside with negated | positive
    · obtain ⟨other, listed, rfl⟩ := List.mem_map.mp negated
      exact .inr ⟨other, listed, rfl⟩
    · exact .inl (List.mem_singleton.mp positive ▸ rfl)

/-- The session after the clauses of a derivation with a known head and a known body. -/
def derive (session : Session α) (head : Atom α) (body : List (BodyLiteral α)) : Session α :=
  let support := session.variableCount + 1
  ((session.fresh.2.sendAll (conjunctionClauses support (body.map session.literal))).send
    [.neg support, .pos (session.number head)]).addBody head support

/-- The entries after a derivation: only that of the head has one more body. -/
theorem derived_derive (session : Session α) (head : Atom α) (body : List (BodyLiteral α)) :
    (session.derive head body).derived = session.derived.map fun entry =>
      if entry.atom = head then
        { entry with bodies := entry.bodies ++ [session.variableCount + 1] }
      else entry := by
  simp [derive, addBody, send, sendAll_eq, fresh]

theorem sent_derive (session : Session α) (head : Atom α) (body : List (BodyLiteral α)) :
    (session.derive head body).sent = session.sent ++
      (conjunctionClauses (session.variableCount + 1) (body.map session.literal) ++
        [[.neg (session.variableCount + 1), .pos (session.number head)]]) := by
  have sends : (session.derive head body).sent =
      ((session.fresh.2.sendAll (conjunctionClauses (session.variableCount + 1)
        (body.map session.literal))).send
          [.neg (session.variableCount + 1), .pos (session.number head)]).sent := rfl
  rw [sends, sent_send, sent_sendAll, List.append_assoc]
  rfl

theorem flagVars_derive (session : Session α) (head : Atom α) (body : List (BodyLiteral α)) :
    (session.derive head body).flagVars = session.flagVars := by
  simp [derive, addBody, send, sendAll_eq, fresh, flagVars]

theorem atomVars_derive (session : Session α) (head : Atom α) (body : List (BodyLiteral α)) :
    (session.derive head body).atomVars = session.atomVars := by
  rw [atomVars, derived_derive, List.map_map, atomVars]
  refine List.map_congr_left fun entry _ => ?_
  by_cases same : entry.atom = head <;> simp [same]

theorem varOf?_derive (session : Session α) (head : Atom α) (body : List (BodyLiteral α))
    (atom : Atom α) : (session.derive head body).varOf? atom = session.varOf? atom :=
  varOf?_congr (session.flagVars_derive head body) (session.atomVars_derive head body) atom

theorem mem_stale_derive {session : Session α} {head : Atom α} {body : List (BodyLiteral α)}
    {atom : Atom α} :
    atom ∈ (session.derive head body).stale ↔ atom ∈ session.stale ∨ atom = head := by
  simp only [derive, addBody, send, sendAll_eq, fresh]
  by_cases waits : head ∈ session.stale
  · simp only [waits, if_true]
    exact ⟨.inl, fun given => given.elim id fun same => same ▸ waits⟩
  · simp [waits]

/-- An entry after a derivation comes from one before, with the same selector. -/
theorem exists_of_mem_derive {session : Session α} {head : Atom α} {body : List (BodyLiteral α)}
    {entry : Derived α} (member : entry ∈ (session.derive head body).derived) :
    ∃ before, before ∈ session.derived ∧ before.atom = entry.atom ∧
      before.selector = entry.selector ∧
      entry.bodies =
        before.bodies ++ if entry.atom = head then [session.variableCount + 1] else [] := by
  rw [derived_derive, List.mem_map] at member
  obtain ⟨before, listed, rfl⟩ := member
  refine ⟨before, listed, ?_⟩
  by_cases same : before.atom = head <;> simp [same]

/-- An entry that does not wait after a derivation is not that of the head, so it has not changed. -/
theorem mem_of_mem_derive {session : Session α} {head : Atom α} {body : List (BodyLiteral α)}
    {entry : Derived α} (member : entry ∈ (session.derive head body).derived)
    (settled : entry.atom ∉ (session.derive head body).stale) :
    entry ∈ session.derived ∧ entry.atom ∉ session.stale := by
  rw [mem_stale_derive, not_or] at settled
  rw [derived_derive, List.mem_map] at member
  obtain ⟨before, listed, rfl⟩ := member
  by_cases same : before.atom = head
  · simp [same] at settled
  · simp only [same, if_false] at settled ⊢
    exact ⟨listed, settled.1⟩

theorem Recorded.derive (recorded : session.Recorded ledger rules)
    (counted : session.Numbered ledger) {head : Atom α} {body : List (BodyLiteral α)}
    (plain : head.isStructural = false) (headKnown : (session.varOf? head).isSome)
    (bodyKnown : forall literal, literal ∈ body -> (session.varOf? literal.atom).isSome) :
    (session.derive head body).Recorded (ledger.push (.support head body))
      (rules ++ [.derive head body]) where
  derivations := by
    simp [Ledger.derivations_push, recorded.derivations, Argumentation.derivations,
      Role.derivation?, Rule.derivation?]
  bodies entry member := by
    obtain ⟨before, listed, atom, _, bodies⟩ := exists_of_mem_derive member
    rw [bodies, recorded.bodies before listed, atom, Ledger.supports_push, counted.count]
    simp [Role.derivation?, eq_comm]
  heads other conditions member := by
    rcases List.mem_append.mp member with old | new
    · exact recorded.heads other conditions old
    · cases List.mem_singleton.mp new
      exact plain
  known rule member atom inside := by
    rw [varOf?_derive]
    rcases List.mem_append.mp member with old | new
    · exact recorded.known rule old atom inside
    · rw [List.mem_singleton.mp new] at inside
      simp only [Rule.atoms, Rule.head?, Rule.body, Option.toList_some, List.singleton_append,
        List.mem_cons, List.mem_map] at inside
      rcases inside with rfl | ⟨literal, listed, rfl⟩
      · exact headKnown
      · exact bodyKnown literal listed
  labels := by
    rw [visible_append_of_none rfl, ← recorded.labels]
    simp [Session.derive, addBody, send, sendAll_eq, fresh]
  shown label var member := by
    rw [varOf?_derive]
    refine recorded.shown label var ?_
    simpa [Session.derive, addBody, send, sendAll_eq, fresh] using member

theorem Selected.derive (selected : session.Selected ledger session.stale) {head : Atom α}
    {body : List (BodyLiteral α)} :
    (session.derive head body).Selected (ledger.push (.support head body))
      (session.derive head body).stale := by
  have selectors : (session.derive head body).selectors = session.selectors := by
    simp [Session.derive, addBody, send, sendAll_eq, fresh]
  constructor
  case selectorRole =>
    intro entry member selector chosen
    obtain ⟨before, listed, atom, same, _⟩ := exists_of_mem_derive member
    rw [← atom]
    exact Ledger.role?_push_of_some
      (selected.selectorRole before listed selector (same.trans chosen))
  case roster => exact selectors ▸ selected.roster
  case members =>
    intro selector
    rw [selectors, selected.members, derived_derive]
    constructor
    · rintro ⟨entry, member, chosen⟩
      refine ⟨_, List.mem_map.mpr ⟨entry, member, rfl⟩, ?_⟩
      by_cases same : entry.atom = head <;> simp [same, chosen]
    · rintro ⟨entry, member, chosen⟩
      obtain ⟨before, listed, rfl⟩ := List.mem_map.mp member
      refine ⟨before, listed, ?_⟩
      by_cases same : before.atom = head <;> simpa [same] using chosen
  case current =>
    intro entry member settled
    obtain ⟨listed, former⟩ := mem_of_mem_derive member settled
    obtain ⟨selector, chosen, inside⟩ := selected.current entry listed former
    exact ⟨selector, chosen, by simp [sent_derive, inside]⟩
  case retired =>
    intro selector atom role absent
    rw [selectors] at absent
    rcases Ledger.role?_push.mp role with old | ⟨_, new⟩
    · simp [sent_derive, selected.retired selector atom old absent]
    · cases new

theorem Accounted.derive (accounted : session.Accounted ledger rules session.stale)
    (recorded : session.Recorded ledger rules) (numbered : session.Numbered ledger)
    {head : Atom α} {body : List (BodyLiteral α)} (headKnown : (session.varOf? head).isSome)
    (bodyKnown : forall literal, literal ∈ body -> (session.varOf? literal.atom).isSome) :
    (session.derive head body).Accounted (ledger.push (.support head body))
      (rules ++ [.derive head body]) (session.derive head body).stale := by
  have next := numbered.role?_next (.support head body)
  have literal : (session.derive head body).literal = session.literal :=
    funext fun _ => literal_congr (varOf?_derive session head body _)
  have number : (session.derive head body).number head = session.number head :=
    number_congr (varOf?_derive session head body head)
  have bodyInUse : forall one, one ∈ body.map session.literal ->
      ((ledger.push (.support head body)).role? one.var).isSome := by
    intro one member
    obtain ⟨original, listed, rfl⟩ := List.mem_map.mp member
    exact Ledger.isSome_role?_push (numbered.isSome_role?_literal (bodyKnown original listed))
  refine accounted.adopt recorded _ (session.sent_derive head body)
    (varOf?_derive session head body) (fun _ _ => Ledger.role?_push_of_some)
    (fun _ old => List.mem_append_left _ old) (fun var other conditions role => ?_)
    (fun conditions member => .inl (by simpa using member)) (fun clause member => ?_)
    (fun clause member one inside => ?_) (fun entry member settled => ?_)
    (fun atom waits => mem_stale_derive.mpr (.inl waits))
  · rcases Ledger.role?_push.mp role with old | ⟨rfl, new⟩
    · exact .inl old
    · cases new
      rw [← numbered.count]
      exact .inr ⟨List.subset_append_left _ _, by simp⟩
  · rcases List.mem_append.mp member with definition | implication
    · exact .definition next (literal ▸ definition)
    · rw [List.mem_singleton.mp implication, ← number]
      exact .derivation next
  · rcases List.mem_append.mp member with definition | implication
    · rcases mem_conjunctionClauses definition inside with same | ⟨other, listed, same⟩
      · rw [same, next]
        rfl
      · exact same ▸ bodyInUse other listed
    · rw [List.mem_singleton.mp implication] at inside
      simp only [List.mem_cons, List.not_mem_nil, or_false] at inside
      rcases inside with rfl | rfl
      · simp [Literal.neg, next]
      · obtain ⟨var, found⟩ := Option.isSome_iff_exists.mp headKnown
        have role : (ledger.push (.support head body)).role? var = some (.atom head) :=
          Ledger.role?_push_of_some (numbered.role_of_varOf? found)
        simp [Literal.pos, number_of_varOf? found, role]
  · exact (mem_of_mem_derive member settled).1

/-- A derivation with a known head and a known body may be taken in. -/
theorem Grounded.derive (grounded : session.Grounded ledger rules session.stale)
    {head : Atom α} {body : List (BodyLiteral α)} (plain : head.isStructural = false)
    (headKnown : (session.varOf? head).isSome)
    (bodyKnown : forall literal, literal ∈ body -> (session.varOf? literal.atom).isSome) :
    (session.derive head body).Grounded (ledger.push (.support head body))
      (rules ++ [.derive head body]) (session.derive head body).stale where
  toNumbered := by
    refine (grounded.toNumbered.fresh (.support head body)).congr ?_
      (flagVars_derive session head body) (atomVars_derive session head body)
    simp [Session.derive, addBody, Session.send, sendAll_eq, fresh]
  toRecorded := grounded.toRecorded.derive grounded.toNumbered plain headKnown bodyKnown
  toSelected := grounded.toSelected.derive
  toAccounted :=
    grounded.toAccounted.derive grounded.toRecorded grounded.toNumbered headKnown bodyKnown

end Derive

/-- Grounding a derivation registers its head and its body first. -/
theorem groundRule_derive (session : Session α) (head : Atom α) (body : List (BodyLiteral α)) :
    session.groundRule (.derive head body) =
      ((session.atomVariable head).2.bodyLiterals body).2.derive head body := by
  have found := (grows_bodyLiterals (session.atomVariable head).2 body).known head _
    (session.varOf?_atomVariable head)
  simp only [groundRule, bodyVariable, Session.derive, bodyLiterals_fst, number_of_varOf? found]
  rfl

theorem grows_display (session : Session α) (atom : Atom α) (var : Nat) :
    session.Grows (session.display atom var) := by
  cases atom with
  | inside label =>
    simp only [display]
    split
    · exact .refl session
    · exact ⟨fun _ _ known => known, rfl, rfl⟩
  | _ => exact .refl session

omit [DecidableEq α] in
theorem stale_display (session : Session α) (atom : Atom α) (var : Nat) :
    (session.display atom var).stale = session.stale := by
  cases atom with
  | inside label =>
    simp only [display]
    split <;> rfl
  | _ => rfl

/-- A rule keeps the variables that are known. -/
theorem grows_groundRule (session : Session α) (rule : Rule α) :
    session.Grows (session.groundRule rule) := by
  cases rule with
  | external atom => exact .refl session
  | declare atom => exact session.grows_atomVariable atom
  | display atom => exact (session.grows_atomVariable atom).trans (grows_display _ _ _)
  | derive head body =>
    rw [groundRule_derive]
    refine ((session.grows_atomVariable head).trans (grows_bodyLiterals _ body)).trans
      ⟨fun _ _ known => (varOf?_derive _ head body _).trans known, ?_, ?_⟩ <;>
      simp [Session.derive, addBody, send, sendAll_eq, fresh]
  | constraint body =>
    exact (session.grows_bodyLiterals body).trans ⟨fun _ _ known => known, rfl, rfl⟩

/-- A rule that a session can take in: the structural atoms that it mentions are declared, it
declares no other atom, and it derives no structural one. -/
structure Groundable (session : Session α) (rule : Rule α) : Prop where
  declared : forall atom, atom ∈ rule.atoms -> atom.isStructural = true ->
    (session.varOf? atom).isSome
  external : forall atom, rule = .external atom -> atom.isStructural = true
  plain : forall head body, rule = .derive head body -> head.isStructural = false

theorem Groundable.grows {session other : Session α} {rule : Rule α}
    (groundable : session.Groundable rule) (grows : session.Grows other) :
    other.Groundable rule where
  declared atom inside structural := grows.isSome (groundable.declared atom inside structural)
  external := groundable.external
  plain := groundable.plain

/-- The structural atoms of a body are declared. -/
theorem Groundable.body {session : Session α} {rule : Rule α}
    (groundable : session.Groundable rule) (literal : BodyLiteral α)
    (inside : literal ∈ rule.body) (structural : literal.atom.isStructural = true) :
    (session.varOf? literal.atom).isSome :=
  groundable.declared literal.atom
    (List.mem_append_right _ (List.mem_map.mpr ⟨literal, inside, rfl⟩)) structural

/-- A groundable rule may be taken in. -/
theorem Grounded.groundRule {ledger : Ledger α} {rules : List (Rule α)} {session : Session α}
    (grounded : session.Grounded ledger rules session.stale) {rule : Rule α}
    (groundable : session.Groundable rule) :
    ∃ later, (session.groundRule rule).Grounded later (rules ++ [rule])
      (session.groundRule rule).stale := by
  cases rule with
  | external atom =>
    refine ⟨ledger, grounded.adoptUnseen rfl (by simp) (fun other inside => ?_)
      (visible_append_of_none rfl)⟩
    have same : other = atom := by simpa [Rule.atoms, Rule.head?, Rule.body] using inside
    exact groundable.declared other inside (same ▸ groundable.external atom rfl)
  | declare atom =>
    obtain ⟨later, registered⟩ := grounded.atomVariable (groundable.declared atom
      (by simp [Rule.atoms, Rule.head?]))
    refine ⟨later, registered.adoptUnseen rfl (by simp) (fun other inside => ?_)
      (visible_append_of_none rfl)⟩
    have same : other = atom := by simpa [Rule.atoms, Rule.head?, Rule.body] using inside
    simp [same, varOf?_atomVariable]
  | display atom =>
    obtain ⟨later, registered⟩ := grounded.atomVariable (groundable.declared atom
      (by simp [Rule.atoms, Rule.head?]))
    have displayed := registered.addDisplay (session.varOf?_atomVariable atom)
    rw [← stale_display] at displayed
    exact ⟨later, displayed⟩
  | derive head body =>
    obtain ⟨first, registered⟩ := grounded.atomVariable (groundable.declared head
      (by simp [Rule.atoms, Rule.head?]))
    have grows := session.grows_atomVariable head
    obtain ⟨second, literals⟩ := registered.bodyLiterals fun literal inside structural =>
      grows.isSome (groundable.body literal inside structural)
    have headKnown : ((session.atomVariable head).2.varOf? head).isSome := by
      simp [varOf?_atomVariable]
    rw [groundRule_derive]
    exact ⟨_, literals.derive (groundable.plain head body rfl)
      ((grows_bodyLiterals _ body).isSome headKnown) (isSome_bodyLiterals _ body)⟩
  | constraint body =>
    obtain ⟨later, literals⟩ := grounded.bodyLiterals
      fun (literal : BodyLiteral α) (inside : literal ∈ body) structural =>
        groundable.body literal inside structural
    have constrained := literals.addConstraint (isSome_bodyLiterals session body)
    rw [← bodyLiterals_fst] at constrained
    exact ⟨later, constrained⟩

theorem grows_foldl_groundRule (session : Session α) (rules : List (Rule α)) :
    session.Grows (rules.foldl Session.groundRule session) := by
  induction rules generalizing session with
  | nil => exact .refl session
  | cons rule rest ih => exact (session.grows_groundRule rule).trans (ih _)

/-- Groundable rules may be taken in one after the other. -/
theorem Grounded.foldl_groundRule {ledger : Ledger α} {rules more : List (Rule α)}
    {session : Session α} (grounded : session.Grounded ledger rules session.stale)
    (groundable : forall rule, rule ∈ more -> session.Groundable rule) :
    ∃ later, (more.foldl Session.groundRule session).Grounded later (rules ++ more)
      (more.foldl Session.groundRule session).stale := by
  induction more generalizing session ledger rules with
  | nil => exact ⟨ledger, by simpa using grounded⟩
  | cons rule rest ih =>
    obtain ⟨later, taken⟩ := grounded.groundRule (groundable rule List.mem_cons_self)
    obtain ⟨last, all⟩ := ih taken fun other member =>
      (groundable other (List.mem_cons_of_mem rule member)).grows (session.grows_groundRule rule)
    exact ⟨last, by simpa using all⟩

end Argumentation.Session
