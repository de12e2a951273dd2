import Argumentation.Proofs.Program.Completion
import Mathlib.Order.WellFoundedSet

/-!
# Stable models

The meaning of a program by reducts: an interpretation is stable when it is the least model of the
rules that remain once the negative literals are decided by it, and violates no constraint.

Stable models are models of the completion. The converse needs the program to be tight, that is,
without a cycle of positive dependencies: then the atoms that are true can be derived one after the
other, by induction along the dependencies.
-/

namespace Argumentation

variable {α : Type}

/-- The negative literals of a body hold in an interpretation. -/
def Interpretation.admits (model : Interpretation α) (body : List (BodyLiteral α)) : Bool :=
  body.all fun
    | .holds _ => true
    | .fails atom => !model atom

/-- The atoms of the positive literals of a body. -/
def positives (body : List (BodyLiteral α)) : List (Atom α) :=
  body.filterMap fun
    | .holds atom => some atom
    | .fails _ => none

/-- The rules without negation that remain when an interpretation decides the negative literals. -/
def reduct (rules : List (Rule α)) (model : Interpretation α) : List (Atom α × List (Atom α)) :=
  ((derivations rules).filter fun rule => model.admits rule.2).map fun rule =>
    (rule.1, positives rule.2)

/-- An interpretation that has the head of each rule of which it has the body. -/
def IsClosed (rules : List (Atom α × List (Atom α))) (model : Interpretation α) : Prop :=
  forall head body, (head, body) ∈ rules -> (forall atom, atom ∈ body -> model atom = true) ->
    model head = true

/-- The least of the closed interpretations. -/
structure IsLeastModel (rules : List (Atom α × List (Atom α))) (model : Interpretation α) :
    Prop where
  closed : IsClosed rules model
  least : forall other, IsClosed rules other -> forall atom, model atom = true -> other atom = true

/-- A stable model of a program. -/
structure IsStableModel (rules : List (Rule α)) (model : Interpretation α) : Prop where
  least : IsLeastModel (reduct rules model) model
  constraint : forall body, .constraint body ∈ rules -> model.satisfies body = false

/-- The fact of an external atom whose value is true. -/
def Rule.fact? (values : Element α -> Bool) : Rule α -> Option (Rule α)
  | .external (.argument label) =>
    if values (.argument label) then some (.derive (.argument label) []) else none
  | .external (.attack attacker attacked) =>
    if values (.attack attacker attacked) then some (.derive (.attack attacker attacked) [])
    else none
  | _ => none

/-- A program with a fact for each external atom whose value is true. -/
def withFacts (values : Element α -> Bool) (rules : List (Rule α)) : List (Rule α) :=
  rules ++ rules.filterMap (Rule.fact? values)

/-- A derived atom on which an atom depends positively. -/
def DependsOn (rules : List (Rule α)) (head atom : Atom α) : Prop :=
  ∃ body, .derive head body ∈ rules ∧ .holds atom ∈ body ∧ atom.isStructural = false

/-- No atom depends positively on itself, however indirectly. -/
def Tight (rules : List (Rule α)) : Prop :=
  forall atom, ¬ Relation.TransGen (DependsOn rules) atom atom

/-- The structural atoms of a program are declared in it and derived by none of its rules. -/
structure IsDeclared (rules : List (Rule α)) : Prop where
  plain : forall head body, .derive head body ∈ rules -> head.isStructural = false
  declared : forall rule, rule ∈ rules -> forall literal, literal ∈ rule.body ->
    forall element : Element α, literal.atom = element.flagAtom ->
      .external element.flagAtom ∈ rules

theorem mem_positives {body : List (BodyLiteral α)} {atom : Atom α} :
    atom ∈ positives body ↔ .holds atom ∈ body := by
  simp only [positives, List.mem_filterMap]
  constructor
  · rintro ⟨literal, member, same⟩
    cases literal <;> simp_all
  · exact fun member => ⟨_, member, rfl⟩

/-- A body holds when its negative literals do and its positive atoms are true. -/
theorem satisfies_iff {model : Interpretation α} {body : List (BodyLiteral α)} :
    model.satisfies body = true ↔
      model.admits body = true ∧ forall atom, atom ∈ positives body -> model atom = true := by
  simp only [Interpretation.satisfies, Interpretation.admits, List.all_eq_true, mem_positives]
  constructor
  · intro holds
    refine ⟨fun literal member => ?_, fun atom member => holds _ member⟩
    have made := holds literal member
    cases literal <;> simp_all [BodyLiteral.isTrueIn]
  · rintro ⟨negative, positive⟩ literal member
    cases literal with
    | holds atom => exact positive atom member
    | fails atom => exact negative _ member

theorem mem_reduct {rules : List (Rule α)} {model : Interpretation α} {head : Atom α}
    {atoms : List (Atom α)} :
    (head, atoms) ∈ reduct rules model ↔
      ∃ body, .derive head body ∈ rules ∧ model.admits body = true ∧ positives body = atoms := by
  simp only [reduct, List.mem_map, List.mem_filter, Prod.exists, mem_derivations, Prod.mk.injEq]
  constructor
  · rintro ⟨other, body, ⟨member, admitted⟩, rfl, rfl⟩
    exact ⟨body, member, admitted, rfl⟩
  · rintro ⟨body, member, admitted, rfl⟩
    exact ⟨head, body, ⟨member, admitted⟩, rfl, rfl⟩

/-- An interpretation is closed under its own reduct when it has the heads of the bodies that it
satisfies. -/
theorem isClosed_reduct_iff {rules : List (Rule α)} {model : Interpretation α} :
    IsClosed (reduct rules model) model ↔
      forall head body, .derive head body ∈ rules -> model.satisfies body = true ->
        model head = true := by
  constructor
  · intro closed head body member satisfied
    obtain ⟨admitted, positive⟩ := satisfies_iff.mp satisfied
    exact closed head _ (mem_reduct.mpr ⟨body, member, admitted, rfl⟩) positive
  · rintro derives head atoms member positive
    obtain ⟨body, listed, admitted, rfl⟩ := mem_reduct.mp member
    exact derives head body listed (satisfies_iff.mpr ⟨admitted, positive⟩)

variable [DecidableEq α]

/-- The atoms of a stable model have a true body: without one, an atom could be left out. -/
theorem IsStableModel.supported {rules : List (Rule α)} {model : Interpretation α}
    (stable : IsStableModel rules model) {atom : Atom α} (holds : model atom = true) :
    ∃ body, .derive atom body ∈ rules ∧ model.satisfies body = true := by
  by_contra unsupported
  let smaller : Interpretation α := fun other => other ≠ atom && model other
  have closed : IsClosed (reduct rules model) smaller := by
    intro head atoms member positive
    have inside : forall other, other ∈ atoms -> model other = true := fun other listed => by
      have kept := positive other listed
      simp only [smaller, Bool.and_eq_true] at kept
      exact kept.2
    have derived := stable.least.closed head atoms member inside
    have different : head ≠ atom := by
      rintro rfl
      obtain ⟨body, listed, admitted, rfl⟩ := mem_reduct.mp member
      exact unsupported ⟨body, listed, satisfies_iff.mpr ⟨admitted, inside⟩⟩
    simp [smaller, derived, different]
  simpa [smaller] using stable.least.least smaller closed atom holds

omit [DecidableEq α] in
theorem mem_fact? {values : Element α -> Bool} {rule fact : Rule α} :
    rule.fact? values = some fact ↔
      ∃ element, rule = .external element.flagAtom ∧ values element = true ∧
        fact = .derive element.flagAtom [] := by
  constructor
  · intro given
    unfold Rule.fact? at given
    split at given
    · rename_i label
      obtain ⟨value, ⟨⟩⟩ := Option.ite_none_right_eq_some.mp given
      exact ⟨.argument label, rfl, value, rfl⟩
    · rename_i attacker attacked
      obtain ⟨value, ⟨⟩⟩ := Option.ite_none_right_eq_some.mp given
      exact ⟨.attack attacker attacked, rfl, value, rfl⟩
    · cases given
  · rintro ⟨element, rfl, value, rfl⟩
    cases element <;> simp [Rule.fact?, Element.flagAtom, value]

omit [DecidableEq α] in
/-- The derivations of a program with facts are its own and the facts. -/
theorem derive_mem_withFacts {values : Element α -> Bool} {rules : List (Rule α)} {head : Atom α}
    {body : List (BodyLiteral α)} :
    .derive head body ∈ withFacts values rules ↔
      .derive head body ∈ rules ∨
        body = [] ∧ ∃ element, head = element.flagAtom ∧
          .external element.flagAtom ∈ rules ∧ values element = true := by
  simp only [withFacts, List.mem_append, List.mem_filterMap, mem_fact?]
  refine or_congr_right ⟨?_, ?_⟩
  · rintro ⟨rule, member, element, rfl, value, same⟩
    cases same
    exact ⟨rfl, element, rfl, member, value⟩
  · rintro ⟨rfl, element, rfl, member, value⟩
    exact ⟨_, member, element, rfl, value, rfl⟩

omit [DecidableEq α] in
theorem constraint_mem_withFacts {values : Element α -> Bool} {rules : List (Rule α)}
    {body : List (BodyLiteral α)} :
    .constraint body ∈ withFacts values rules ↔ .constraint body ∈ rules := by
  simp [withFacts, mem_fact?]

/-- Stable models are models of the completion. -/
theorem IsStableModel.isCompletionModel {values : Element α -> Bool} {rules : List (Rule α)}
    {model : Interpretation α} (declared : IsDeclared rules)
    (stable : IsStableModel (withFacts values rules) model) :
    IsCompletionModel rules values model where
  external element member := by
    rw [Bool.eq_iff_iff]
    constructor
    · intro holds
      have structural := element.isStructural_flagAtom
      obtain ⟨body, listed, _⟩ := stable.supported holds
      rcases derive_mem_withFacts.mp listed with derived | ⟨_, other, same, _, value⟩
      · simp [declared.plain _ _ derived] at structural
      · rwa [Element.flagAtom_inj.mp same]
    · intro value
      have fact : .derive element.flagAtom [] ∈ withFacts values rules :=
        derive_mem_withFacts.mpr (.inr ⟨rfl, element, rfl, member, value⟩)
      exact isClosed_reduct_iff.mp stable.least.closed _ _ fact rfl
  derived atom plain := by
    constructor
    · intro holds
      obtain ⟨body, listed, satisfied⟩ := stable.supported holds
      rcases derive_mem_withFacts.mp listed with derived | ⟨_, element, rfl, _⟩
      · exact ⟨body, derived, satisfied⟩
      · simp at plain
    · rintro ⟨body, member, satisfied⟩
      exact isClosed_reduct_iff.mp stable.least.closed _ _
        (derive_mem_withFacts.mpr (.inl member)) satisfied
  constraint body member := stable.constraint body (constraint_mem_withFacts.mpr member)

omit [DecidableEq α] in
/-- A program is tight when positive dependencies lower some rank of the atoms. -/
theorem Tight.of_rank {rules : List (Rule α)} (rank : Atom α -> Nat)
    (lowers : forall head atom, DependsOn rules head atom -> rank atom < rank head) :
    Tight rules := by
  have below : forall head atom, Relation.TransGen (DependsOn rules) head atom ->
      rank atom < rank head := by
    intro head atom path
    induction path with
    | single depends => exact lowers _ _ depends
    | tail _ depends ih => exact (lowers _ _ depends).trans ih
  exact fun atom path => lt_irrefl _ (below atom atom path)

omit [DecidableEq α] in
/-- In a tight program, what holds of an atom as soon as it holds of those that it depends on holds
of all atoms. -/
theorem Tight.induction {rules : List (Rule α)} (tight : Tight rules) {property : Atom α -> Prop}
    (step : forall atom, (forall below, DependsOn rules atom below -> property below) ->
      property atom) (atom : Atom α) : property atom := by
  let heads : Set (Atom α) := { head | ∃ body, .derive head body ∈ rules }
  have finite : heads.Finite := by
    refine ((derivations rules).map Prod.fst).finite_toSet.subset ?_
    rintro head ⟨body, member⟩
    exact List.mem_map.mpr ⟨_, mem_derivations.mpr member, rfl⟩
  let below : Atom α -> Atom α -> Prop := fun lower upper =>
    Relation.TransGen (DependsOn rules) upper lower
  have order : IsStrictOrder (Atom α) below :=
    { irrefl := tight, trans := fun _ _ _ first second => second.trans first }
  have founded : heads.WellFoundedOn below := finite.wellFoundedOn
  have property_of_head : forall head, head ∈ heads -> property head := by
    intro head member
    refine founded.induction member fun head _ ih => step head fun lower depends => ?_
    by_cases again : lower ∈ heads
    · exact ih lower again (.single depends)
    · exact step lower fun _ ⟨body, derived, _⟩ => absurd ⟨body, derived⟩ again
  -- Atoms that no rule derives depend on nothing.
  refine step atom fun lower _ => ?_
  by_cases again : lower ∈ heads
  · exact property_of_head lower again
  · exact step lower fun _ ⟨body, derived, _⟩ => absurd ⟨body, derived⟩ again

omit [DecidableEq α] in
/-- In a tight program, a completion model without undeclared structural atoms is stable. -/
theorem IsCompletionModel.isStableModel {values : Element α -> Bool} {rules : List (Rule α)}
    {model : Interpretation α} (tight : Tight rules) (declared : IsDeclared rules)
    (completion : IsCompletionModel rules values model)
    (undeclared : forall element : Element α, model element.flagAtom = true ->
      .external element.flagAtom ∈ rules) : IsStableModel (withFacts values rules) model where
  least := by
    refine ⟨isClosed_reduct_iff.mpr fun head body member satisfied => ?_, fun other closed => ?_⟩
    · rcases derive_mem_withFacts.mp member with derived | ⟨_, element, rfl, external, value⟩
      · exact (completion.derived head (declared.plain head body derived)).mpr
          ⟨body, derived, satisfied⟩
      · rw [completion.external element external, value]
    · have facts : forall element : Element α, model element.flagAtom = true ->
          other element.flagAtom = true := by
        intro element holds
        have external := undeclared element holds
        have value := (completion.external element external).symm.trans holds
        have fact := derive_mem_withFacts.mpr (.inr ⟨rfl, element, rfl, external, value⟩)
        exact closed _ [] (mem_reduct.mpr ⟨[], fact, rfl, rfl⟩) (by simp)
      refine tight.induction fun atom ih holds => ?_
      by_cases structural : atom.isStructural = true
      · obtain ⟨element, rfl⟩ := Atom.exists_flagAtom structural
        exact facts element holds
      · rw [Bool.not_eq_true] at structural
        obtain ⟨body, member, satisfied⟩ := (completion.derived atom structural).mp holds
        obtain ⟨admitted, positive⟩ := satisfies_iff.mp satisfied
        have listed : (atom, positives body) ∈ reduct (withFacts values rules) model :=
          mem_reduct.mpr ⟨body, derive_mem_withFacts.mpr (.inl member), admitted, rfl⟩
        refine closed atom _ listed fun lower inside => ?_
        -- The induction reaches derived atoms; structural ones are facts.
        by_cases external : lower.isStructural = true
        · obtain ⟨element, rfl⟩ := Atom.exists_flagAtom external
          exact facts element (positive _ inside)
        · exact ih lower ⟨body, member, mem_positives.mp inside, by simpa using external⟩
            (positive lower inside)
  constraint body member := completion.constraint body (constraint_mem_withFacts.mp member)

/-- An interpretation without the structural atoms that a program does not declare. -/
def Interpretation.restrict (rules : List (Rule α)) (model : Interpretation α) :
    Interpretation α :=
  fun atom => model atom && (!atom.isStructural || rules.contains (.external atom))

theorem restrict_of_plain {rules : List (Rule α)} {model : Interpretation α} {atom : Atom α}
    (plain : atom.isStructural = false) : model.restrict rules atom = model atom := by
  simp [Interpretation.restrict, plain]

theorem restrict_of_external {rules : List (Rule α)} {model : Interpretation α} {atom : Atom α}
    (external : .external atom ∈ rules) : model.restrict rules atom = model atom := by
  simp [Interpretation.restrict, external]

/-- A program does not see the structural atoms that it does not declare. -/
theorem satisfies_restrict {rules : List (Rule α)} (declared : IsDeclared rules)
    {rule : Rule α} (member : rule ∈ rules) (model : Interpretation α) :
    (model.restrict rules).satisfies rule.body = model.satisfies rule.body := by
  refine Interpretation.satisfies_congr fun literal inside => ?_
  by_cases structural : literal.atom.isStructural = true
  · obtain ⟨element, same⟩ := Atom.exists_flagAtom structural
    have external := declared.declared rule member literal inside element same.symm
    exact restrict_of_external (same ▸ external)
  · exact restrict_of_plain (by simpa using structural)

theorem IsCompletionModel.restrict {values : Element α -> Bool} {rules : List (Rule α)}
    {model : Interpretation α} (declared : IsDeclared rules)
    (completion : IsCompletionModel rules values model) :
    IsCompletionModel rules values (model.restrict rules) where
  external element member := by
    rw [restrict_of_external member, completion.external element member]
  derived atom plain := by
    rw [restrict_of_plain plain, completion.derived atom plain]
    refine exists_congr fun body => and_congr_right fun member => ?_
    have same := satisfies_restrict declared member model
    simp only [Rule.body] at same
    rw [same]
  constraint body member := by
    have same := satisfies_restrict declared member model
    simp only [Rule.body] at same
    rw [same, completion.constraint body member]

/-- The stable models of a tight program show what its completion models show. -/
theorem Tight.exists_stable_iff {values : Element α -> Bool} {rules : List (Rule α)}
    (tight : Tight rules) (declared : IsDeclared rules) (labels : List α) :
    (∃ model, IsStableModel (withFacts values rules) model ∧ labels = projection rules model) ↔
      ∃ model, IsCompletionModel rules values model ∧ labels = projection rules model := by
  constructor
  · rintro ⟨model, stable, rfl⟩
    exact ⟨model, stable.isCompletionModel declared, rfl⟩
  · rintro ⟨model, completion, rfl⟩
    refine ⟨model.restrict rules,
      (completion.restrict declared).isStableModel tight declared fun element holds => ?_, ?_⟩
    · simp only [Interpretation.restrict, Bool.and_eq_true] at holds
      simpa using holds.2
    · refine List.filter_congr fun label _ => ?_
      exact (restrict_of_plain rfl).symm

end Argumentation
