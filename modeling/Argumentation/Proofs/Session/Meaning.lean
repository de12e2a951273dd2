import Argumentation.Proofs.Session.Enumeration
import Argumentation.Proofs.Session.Flags

/-!
# What the clauses mean

The valuations that a settled session allows and the completion models of its batches are the same
thing. A valuation gives the atoms of the program a value, and the clauses in force make that a
model of the completion. The other way round, the ledger says what each variable stands for, which
determines a valuation that makes all the clauses true, those of replaced completions and of past
enumerations included.
-/

namespace Argumentation.Session

open Argumentation.Sat (Literal Clause)

variable {α : Type} [DecidableEq α]

/-- The values that a valuation gives to the atoms; unknown atoms are false. -/
def interpretation (session : Session α) (valuation : Nat -> Bool) : Interpretation α :=
  fun atom => (session.varOf? atom).any valuation

section Soundness

variable {ledger : Ledger α} {session : Session α} {valuation : Nat -> Bool}

theorem interpretation_of_varOf? {atom : Atom α} {var : Nat}
    (found : session.varOf? atom = some var) :
    session.interpretation valuation atom = valuation var := by
  simp [interpretation, found]

theorem varOf?_of_interpretation {atom : Atom α}
    (holds : session.interpretation valuation atom = true) :
    ∃ var, session.varOf? atom = some var ∧ valuation var = true := by
  simpa [interpretation, Option.any_eq_true] using holds

/-- The literal of a known body literal is true when the body literal is. -/
theorem holds_literal {model : Interpretation α} {literal : BodyLiteral α}
    (agree : valuation (session.number literal.atom) = model literal.atom) :
    (session.literal literal).holds valuation = literal.isTrueIn model := by
  cases literal with
  | holds atom | fails atom =>
    simp only [BodyLiteral.atom] at agree
    cases value : model atom <;>
      simp [Session.literal, Literal.holds, Literal.pos, Literal.neg, BodyLiteral.isTrueIn, agree,
        value]

theorem all_holds_literal {model : Interpretation α} {body : List (BodyLiteral α)}
    (agree : forall literal, literal ∈ body ->
      valuation (session.number literal.atom) = model literal.atom) :
    (body.map session.literal).all (Literal.holds valuation) = model.satisfies body := by
  induction body with
  | nil => rfl
  | cons literal rest ih =>
    have others := ih fun other member => agree other (List.mem_cons_of_mem literal member)
    simp only [Interpretation.satisfies] at others
    simp only [List.map_cons, List.all_cons, Interpretation.satisfies, others,
      holds_literal (agree literal List.mem_cons_self)]

/-- The flags of a settled session are those that its program declares. -/
theorem Settled.external_iff (settled : session.Settled ledger) {element : Element α} :
    .external element.flagAtom ∈ programOf session.batches ↔
      (session.flag? element).isSome := by
  rw [settled.flagged, programOf, List.mem_flatMap]
  constructor
  · rintro ⟨batch, member, declared⟩
    have same := (settled.declares batch member _).mp declared
    exact ⟨batch, member, (Element.flagAtom_inj.mp same).symm⟩
  · rintro ⟨batch, member, rfl⟩
    exact ⟨batch, member, (settled.declares batch member _).mpr rfl⟩

omit [DecidableEq α] in
theorem flagLiteral_mem {flag : Flag α} (member : flag ∈ session.flags) :
    flagLiteral flag ∈ session.assumptions := by
  simp only [assumptions, List.mem_append, List.mem_map, List.mem_reverse]
  exact .inr ⟨flag, member, rfl⟩

theorem raised_of_flag? {element : Element α} {flag : Flag α}
    (found : session.flag? element = some flag) : session.raised element = flag.value := by
  cases value : flag.value <;> simp [raised, flagValue?, found, value]

/-- The values of mentioned atoms are those of their variables. -/
theorem Recorded.interpretation_eq {rules : List (Rule α)}
    (recorded : session.Recorded ledger rules)
    {atom : Atom α} (mentions : Mentions rules atom) :
    valuation (session.number atom) = session.interpretation valuation atom := by
  obtain ⟨var, found⟩ := Option.isSome_iff_exists.mp (recorded.isSome_varOf? mentions)
  rw [interpretation_of_varOf? found, number_of_varOf? found]

/-- A body holds when all its literals do. -/
theorem Recorded.satisfies_eq {rules : List (Rule α)} (recorded : session.Recorded ledger rules)
    (valuation : Nat -> Bool) {rule : Rule α} (member : rule ∈ rules) :
    (rule.body.map session.literal).all (Literal.holds valuation) =
      (session.interpretation valuation).satisfies rule.body :=
  all_holds_literal fun _ inside => recorded.interpretation_eq (Mentions.body member inside)

/-- The variable of a body has the value of the body. -/
theorem Settled.support_eq (settled : session.Settled ledger)
    (clauses : forall clause, clause ∈ session.sent -> clause.holds valuation) {var : Nat}
    {head : Atom α} {body : List (BodyLiteral α)}
    (role : ledger.role? var = some (.support head body)) :
    valuation var = (session.interpretation valuation).satisfies body := by
  have member := settled.derive_mem_iff.mpr ⟨var, role⟩
  have defined : forall clause, clause ∈ conjunctionClauses var (body.map session.literal) ->
      Clause.holds valuation clause := fun clause inside =>
    clauses clause (settled.required clause (.definition role inside))
  rw [(conjunctionClauses_hold_iff valuation var _).mp defined]
  exact settled.toRecorded.satisfies_eq valuation member

/-- A derived atom that is true has a true body. -/
theorem Settled.supported (settled : session.Settled ledger)
    (allows : session.Allows session.assumptions valuation) {atom : Atom α}
    (plain : atom.isStructural = false) (holds : session.interpretation valuation atom = true) :
    ∃ body, .derive atom body ∈ programOf session.batches ∧
      (session.interpretation valuation).satisfies body = true := by
  obtain ⟨var, found, value⟩ := varOf?_of_interpretation holds
  rw [varOf?_of_plain session plain, Option.map_eq_some_iff] at found
  obtain ⟨entry, known, rfl⟩ := found
  obtain ⟨listed, rfl⟩ := settled.derived?_eq_some.mp known
  obtain ⟨selector, chosen, completed⟩ := settled.current entry listed List.not_mem_nil
  have selected : valuation selector = true := by
    have member : Literal.pos selector ∈ session.assumptions := by
      simp only [assumptions, List.mem_append, List.mem_map]
      exact .inl ⟨selector, (settled.members selector).mpr ⟨entry, listed, chosen⟩, rfl⟩
    simpa [Literal.holds, Literal.pos] using allows.assumed _ member
  have clause := allows.clauses _ completed
  simp only [completionClause, Clause.holds_cons, Literal.holds, Literal.neg, selected, value]
    at clause
  obtain ⟨support, inside, made⟩ :
      ∃ support, support ∈ entry.bodies ∧ valuation support = true := by
    simpa [Clause.holds, Literal.holds, Literal.pos] using clause
  rw [settled.bodies entry listed, Ledger.mem_supports] at inside
  obtain ⟨body, role⟩ := inside
  refine ⟨body, settled.derive_mem_iff.mpr ⟨support, role⟩, ?_⟩
  rw [← settled.support_eq allows.clauses role, made]

/-- The head of a derivation with a true body is true. -/
theorem Settled.derives (settled : session.Settled ledger)
    (clauses : forall clause, clause ∈ session.sent -> clause.holds valuation) {head : Atom α}
    {body : List (BodyLiteral α)} (member : .derive head body ∈ programOf session.batches)
    (satisfied : (session.interpretation valuation).satisfies body = true) :
    session.interpretation valuation head = true := by
  obtain ⟨var, role⟩ := settled.derive_mem_iff.mp member
  have value := (settled.support_eq clauses role).trans satisfied
  have clause := clauses _ (settled.required _ (.derivation role))
  rw [← settled.toRecorded.interpretation_eq (Mentions.head member)]
  simpa [Clause.holds, Literal.holds, Literal.pos, Literal.neg, value] using clause

/-- An allowed valuation gives a model of the completion. -/
theorem Settled.isCompletionModel (settled : session.Settled ledger)
    (allows : session.Allows session.assumptions valuation) :
    IsCompletionModel (programOf session.batches) session.raised
      (session.interpretation valuation) where
  external element declared := by
    obtain ⟨flag, found⟩ := Option.isSome_iff_exists.mp (settled.external_iff.mp declared)
    have var : session.varOf? element.flagAtom = some flag.var := by
      rw [settled.toNumbered.varOf?_flagAtom, found]
      rfl
    have assumed := allows.assumed _ (flagLiteral_mem (List.mem_of_find?_eq_some found))
    rw [interpretation_of_varOf? var, raised_of_flag? found]
    simpa [Literal.holds, flagLiteral] using assumed
  derived atom plain := by
    constructor
    · exact settled.supported allows plain
    · rintro ⟨body, member, satisfied⟩
      exact settled.derives allows.clauses member satisfied
  constraint body member := by
    have clause := allows.clauses _ (settled.required _ (.constraint member))
    have same := settled.toRecorded.satisfies_eq valuation member
    rw [Clause.holds_map_negate] at clause
    simp only [Rule.body] at same
    simpa [same] using clause

end Soundness

/-- The valuation that a model determines. The values of flags come from the session itself, as an
element that was declared several times has several flags; a variable not in use is true. -/
def canonical (ledger : Ledger α) (session : Session α) (model : Interpretation α) (var : Nat) :
    Bool :=
  match session.flags.find? fun flag => flag.var = var with
  | some flag => flag.value
  | none =>
    match ledger.role? var with
    | some (.atom atom) => model atom
    | some (.support _ body) => model.satisfies body
    | some (.completion _) => var ∈ session.selectors.members
    | some .enumeration => false
    | none => true

section Completeness

variable {ledger : Ledger α} {session : Session α} {model : Interpretation α}

omit [DecidableEq α] in
theorem Numbered.role_of_flag (numbered : session.Numbered ledger) {flag : Flag α}
    (member : flag ∈ session.flags) :
    ledger.role? flag.var = some (.atom flag.element.flagAtom) :=
  numbered.role _ _ (List.mem_append_left _ (List.mem_map.mpr ⟨flag, member, rfl⟩))

omit [DecidableEq α] in
/-- Each flag has its value. -/
theorem Numbered.canonical_flag (numbered : session.Numbered ledger) {flag : Flag α}
    (member : flag ∈ session.flags) : canonical ledger session model flag.var = flag.value := by
  have distinct : (session.flags.map Flag.var).Nodup := by
    have vars := numbered.vars
    simp only [table, flagVars, List.map_append, List.map_map] at vars
    exact (List.nodup_append.mp vars).1
  obtain ⟨found, listed⟩ : ∃ found, session.flags.find? (fun other => other.var = flag.var) =
      some found := by
    rw [← Option.isSome_iff_exists, List.find?_isSome]
    exact ⟨flag, member, by simp⟩
  have same := List.find?_some listed
  simp only [decide_eq_true_eq] at same
  have equal := List.inj_on_of_nodup_map distinct (List.mem_of_find?_eq_some listed) member same
  simp [canonical, listed, equal]

omit [DecidableEq α] in
/-- A variable that is not that of a flag has the value of its role. -/
theorem Numbered.find?_flag_eq_none (numbered : session.Numbered ledger) {var : Nat}
    {role : Role α} (found : ledger.role? var = some role)
    (other : forall element : Element α, role ≠ .atom element.flagAtom) :
    session.flags.find? (fun flag => flag.var = var) = none := by
  rw [List.find?_eq_none]
  intro flag member same
  simp only [decide_eq_true_eq] at same
  have left := numbered.role_of_flag member
  rw [same, found, Option.some.injEq] at left
  exact other _ left

omit [DecidableEq α] in
theorem Numbered.canonical_support (numbered : session.Numbered ledger) {var : Nat}
    {head : Atom α} {body : List (BodyLiteral α)}
    (role : ledger.role? var = some (.support head body)) :
    canonical ledger session model var = model.satisfies body := by
  simp [canonical, role, numbered.find?_flag_eq_none role]

omit [DecidableEq α] in
theorem Numbered.canonical_completion (numbered : session.Numbered ledger) {var : Nat}
    {atom : Atom α} (role : ledger.role? var = some (.completion atom)) :
    canonical ledger session model var = decide (var ∈ session.selectors.members) := by
  simp [canonical, role, numbered.find?_flag_eq_none role]

omit [DecidableEq α] in
theorem Numbered.canonical_enumeration (numbered : session.Numbered ledger) {var : Nat}
    (role : ledger.role? var = some .enumeration) :
    canonical ledger session model var = false := by
  simp [canonical, role, numbered.find?_flag_eq_none role]

omit [DecidableEq α] in
/-- The next variable is true. -/
theorem Numbered.canonical_next (numbered : session.Numbered ledger) :
    canonical ledger session model (session.variableCount + 1) = true := by
  have unused : ledger.role? (session.variableCount + 1) = none := by
    cases role : ledger.role? (session.variableCount + 1) with
    | none => rfl
    | some other =>
      have bounds := Ledger.bounds role
      have count := numbered.count
      omega
  have absent : session.flags.find? (fun flag => flag.var = session.variableCount + 1) = none := by
    rw [List.find?_eq_none]
    intro flag member same
    simp only [decide_eq_true_eq] at same
    have role := numbered.role_of_flag member
    simp [same, unused] at role
  simp [canonical, unused, absent]

/-- The variable of an atom has the value of the atom. -/
theorem Settled.canonical_atom (settled : session.Settled ledger)
    (completion : IsCompletionModel (programOf session.batches) session.raised model)
    {atom : Atom α} {var : Nat} (found : session.varOf? atom = some var) :
    canonical ledger session model var = model atom := by
  by_cases structural : atom.isStructural = true
  · obtain ⟨element, rfl⟩ := Atom.exists_flagAtom structural
    rw [settled.toNumbered.varOf?_flagAtom, Option.map_eq_some_iff] at found
    obtain ⟨flag, known, rfl⟩ := found
    have declared := settled.external_iff.mpr (Option.isSome_iff_exists.mpr ⟨flag, known⟩)
    rw [settled.canonical_flag (List.mem_of_find?_eq_some known), completion.external _ declared,
      raised_of_flag? known]
  · have role := settled.role_of_varOf? found
    have absent := settled.find?_flag_eq_none role fun element same => by
      simp only [Role.atom.injEq] at same
      simp [same] at structural
    simp [canonical, role, absent]

/-- The literals of a rule have the values of its body. -/
theorem Settled.canonical_body (settled : session.Settled ledger)
    (completion : IsCompletionModel (programOf session.batches) session.raised model)
    {rule : Rule α} (member : rule ∈ programOf session.batches) :
    (rule.body.map session.literal).all (Literal.holds (canonical ledger session model)) =
      model.satisfies rule.body := by
  refine all_holds_literal fun literal inside => ?_
  obtain ⟨var, found⟩ := Option.isSome_iff_exists.mp
    (settled.isSome_varOf? (Mentions.body member inside))
  rw [number_of_varOf? found, settled.canonical_atom completion found]

/-- The clauses that the rules require hold in their models. -/
theorem Settled.canonical_ruleClause (settled : session.Settled ledger)
    (completion : IsCompletionModel (programOf session.batches) session.raised model)
    {clause : Clause} (reason : RuleClause ledger (programOf session.batches) session clause) :
    clause.holds (canonical ledger session model) = true := by
  cases reason with
  | @definition var head body _ role inside =>
    have body := settled.canonical_body completion (settled.derive_mem_iff.mpr ⟨var, role⟩)
    refine (conjunctionClauses_hold_iff _ var _).mpr ?_ clause inside
    rw [settled.canonical_support role]
    exact body.symm
  | @derivation var head body role =>
    have member := settled.derive_mem_iff.mpr ⟨var, role⟩
    obtain ⟨index, found⟩ := Option.isSome_iff_exists.mp
      (settled.isSome_varOf? (Mentions.head member))
    have value : canonical ledger session model var = model.satisfies body :=
      settled.canonical_support role
    have head := settled.canonical_atom completion found
    have derived := completion.derived _ (settled.heads _ _ member)
    cases satisfied : model.satisfies body with
    | false => simp [Clause.holds, Literal.holds, Literal.neg, value, satisfied]
    | true =>
      have holds := derived.mpr ⟨body, member, satisfied⟩
      simp [Clause.holds, Literal.holds, Literal.pos, number_of_varOf? found, head, holds]
  | @constraint body member =>
    have same := settled.canonical_body completion member
    rw [Clause.holds_map_negate]
    simp only [Rule.body] at same
    simp [same, completion.constraint body member]

/-- A completion clause in force holds: an atom that is true has a true body. -/
theorem Settled.canonical_completionClause (settled : session.Settled ledger)
    (completion : IsCompletionModel (programOf session.batches) session.raised model)
    {entry : Derived α} (listed : entry ∈ session.derived) (selector : Nat) :
    (completionClause selector entry).holds (canonical ledger session model) = true := by
  have found := settled.toNumbered.varOf?_derived listed
  have value := settled.canonical_atom completion found
  have plain := settled.plain entry.atom entry.var (List.mem_map.mpr ⟨entry, listed, rfl⟩)
  cases holds : model entry.atom with
  | false => simp [completionClause, Literal.holds, Literal.neg, value, holds]
  | true =>
    obtain ⟨body, member, satisfied⟩ := (completion.derived _ plain).mp holds
    obtain ⟨support, role⟩ := settled.derive_mem_iff.mp member
    have inside : support ∈ entry.bodies := by
      rw [settled.bodies entry listed, Ledger.mem_supports]
      exact ⟨body, role⟩
    refine List.any_eq_true.mpr ⟨.pos support, ?_, ?_⟩
    · refine List.mem_cons_of_mem _ (List.mem_cons_of_mem _ ?_)
      exact List.mem_map.mpr ⟨support, inside, rfl⟩
    · simp [Literal.holds, Literal.pos, settled.canonical_support role, satisfied]

/-- A clause under a selector that is out of use holds. -/
theorem Settled.canonical_guarded (settled : session.Settled ledger)
    (completion : IsCompletionModel (programOf session.batches) session.raised model)
    {clause : Clause} (guarded : Guarded ledger [] session clause) :
    clause.holds (canonical ledger session model) = true := by
  obtain ⟨selector, inside, guard⟩ := guarded
  have off : canonical ledger session model selector = false ->
      clause.holds (canonical ledger session model) = true := fun value =>
    List.any_eq_true.mpr ⟨_, inside, by simp [Literal.holds, Literal.neg, value]⟩
  rcases guard with role | ⟨⟨atom, role⟩, completes⟩
  · exact off (settled.canonical_enumeration role)
  · by_cases member : selector ∈ session.selectors.members
    · obtain ⟨entry, listed, chosen⟩ := (settled.members selector).mp member
      rcases completes entry listed chosen with waits | rfl
      · exact absurd waits List.not_mem_nil
      · exact settled.canonical_completionClause completion listed selector
    · exact off (by simp [settled.canonical_completion role, member])

/-- The valuation of a model of the completion is allowed. -/
theorem Settled.allows_canonical (settled : session.Settled ledger)
    (completion : IsCompletionModel (programOf session.batches) session.raised model) :
    session.Allows session.assumptions (canonical ledger session model) where
  clauses clause member := by
    rcases settled.reasons clause member with required | guarded
    · exact settled.canonical_ruleClause completion required
    · exact settled.canonical_guarded completion guarded
  assumed literal member := by
    simp only [assumptions, List.mem_append, List.mem_map, List.mem_reverse] at member
    rcases member with ⟨selector, chosen, rfl⟩ | ⟨flag, declared, rfl⟩
    · obtain ⟨owner, role⟩ := settled.toSelected.role_of_mem chosen
      simp [Literal.holds, Literal.pos, settled.canonical_completion role, chosen]
    · simp [Literal.holds, flagLiteral, settled.canonical_flag declared]

end Completeness

/-- The labels of a valuation are the projection of a model that agrees on the visible
memberships. -/
theorem Settled.labelsOf_eq {ledger : Ledger α} {session : Session α}
    (settled : session.Settled ledger) {valuation : Nat -> Bool} {model : Interpretation α}
    (agree : forall atom var, session.varOf? atom = some var -> valuation var = model atom) :
    session.labelsOf valuation = projection (programOf session.batches) model := by
  rw [projection, ← settled.labels, List.filter_map, labelsOf]
  refine congrArg _ (List.filter_congr fun entry listed => ?_)
  exact agree _ _ (settled.shown entry.1 entry.2 listed)

/-- The answers under further assumptions are the projections of the models with the property that
the assumptions stand for. -/
theorem Settled.mem_answers_iff {ledger : Ledger α} {session : Session α}
    (settled : session.Settled ledger) (extra : List Literal) (meaning : Interpretation α -> Prop)
    (sound : forall valuation, session.Allows (session.assumptions ++ extra) valuation ->
      meaning (session.interpretation valuation))
    (complete : forall model, IsCompletionModel (programOf session.batches) session.raised model ->
      meaning model -> forall literal, literal ∈ extra ->
        literal.holds (canonical ledger session model) = true) (extension : Extension α) :
    extension ∈ session.answers (session.assumptions ++ extra) ↔
      ∃ model, IsCompletionModel (programOf session.batches) session.raised model ∧
        meaning model ∧ extension = projection (programOf session.batches) model := by
  constructor
  · rintro ⟨valuation, allows, rfl⟩
    have fewer : session.Allows session.assumptions valuation :=
      ⟨allows.clauses, fun literal member => allows.assumed literal (List.mem_append_left _ member)⟩
    refine ⟨_, settled.isCompletionModel fewer, sound valuation allows, settled.labelsOf_eq ?_⟩
    exact fun atom var found => (interpretation_of_varOf? found).symm
  · rintro ⟨model, completion, means, rfl⟩
    have allows := settled.allows_canonical completion
    refine ⟨_, ⟨allows.clauses, fun literal member => ?_⟩, settled.labelsOf_eq ?_⟩
    · rcases List.mem_append.mp member with old | new
      · exact allows.assumed literal old
      · exact complete model completion means literal new
    · exact fun atom var found => settled.canonical_atom completion found

end Argumentation.Session
