import Argumentation.Program.Encoding
import Argumentation.Proofs.Framework.Admissibility
import Argumentation.Proofs.Program.Stable

/-!
# Admissible sets as completion models

The completion models of the rules of some elements show exactly the admissible sets of those that
are active.
-/

namespace Argumentation

variable {α : Type}

namespace Encoding

/-- The rules of an element. -/
def rules : Element α -> List (Rule α)
  | .argument label => argumentRules label
  | .attack attacker attacked => attackRules attacker attacked

/-- The rules of some elements, in order. -/
def program (elements : List (Element α)) : List (Rule α) :=
  elements.flatMap rules

/-- The label of an argument. -/
def label? : Element α -> Option α
  | .argument label => some label
  | .attack _ _ => none

/-- The labels of the arguments among some elements, in order. -/
def labels (elements : List (Element α)) : List α :=
  elements.filterMap label?

theorem mem_labels {elements : List (Element α)} {label : α} :
    label ∈ labels elements ↔ .argument label ∈ elements := by
  simp only [labels, List.mem_filterMap]
  constructor
  · rintro ⟨element, member, same⟩
    cases element <;> simp_all [label?]
  · exact fun member => ⟨_, member, rfl⟩

section Rules

variable {elements : List (Element α)}

theorem mem_program {rule : Rule α} :
    rule ∈ program elements ↔ ∃ element, element ∈ elements ∧ rule ∈ rules element := by
  simp [program]

theorem external_mem_program {element : Element α} :
    .external element.flagAtom ∈ program elements ↔ element ∈ elements := by
  rw [mem_program]
  constructor
  · rintro ⟨other, member, listed⟩
    cases element <;> cases other <;>
      simp_all [rules, argumentRules, attackRules, Element.flagAtom]
  · intro member
    exact ⟨element, member, by
      cases element <;> simp [rules, argumentRules, attackRules, Element.flagAtom]⟩

theorem derive_inside_mem_program {label : α} {body : List (BodyLiteral α)} :
    .derive (.inside label) body ∈ program elements ↔
      .argument label ∈ elements ∧ body = [.fails (.outside label), .holds (.argument label)] := by
  rw [mem_program]
  constructor
  · rintro ⟨element, member, listed⟩
    cases element <;> simp_all [rules, argumentRules, attackRules]
  · rintro ⟨member, rfl⟩
    exact ⟨_, member, by simp [rules, argumentRules]⟩

theorem derive_outside_mem_program {label : α} {body : List (BodyLiteral α)} :
    .derive (.outside label) body ∈ program elements ↔
      .argument label ∈ elements ∧ body = [.fails (.inside label), .holds (.argument label)] := by
  rw [mem_program]
  constructor
  · rintro ⟨element, member, listed⟩
    cases element <;> simp_all [rules, argumentRules, attackRules]
  · rintro ⟨member, rfl⟩
    exact ⟨_, member, by simp [rules, argumentRules]⟩

theorem derive_defeated_mem_program {attacked : α} {body : List (BodyLiteral α)} :
    .derive (.defeated attacked) body ∈ program elements ↔
      ∃ attacker, .attack attacker attacked ∈ elements ∧
        body = [.holds (.inside attacker), .holds (.attack attacker attacked)] := by
  rw [mem_program]
  constructor
  · rintro ⟨element, member, listed⟩
    cases element <;> simp_all [rules, argumentRules, attackRules]
  · rintro ⟨attacker, member, rfl⟩
    exact ⟨_, member, by simp [rules, attackRules]⟩

theorem derive_undefended_mem_program {attacked : α} {body : List (BodyLiteral α)} :
    .derive (.undefended attacked) body ∈ program elements ↔
      ∃ attacker, .attack attacker attacked ∈ elements ∧
        body = [.holds (.attack attacker attacked), .fails (.defeated attacker)] := by
  rw [mem_program]
  constructor
  · rintro ⟨element, member, listed⟩
    cases element <;> simp_all [rules, argumentRules, attackRules]
  · rintro ⟨attacker, member, rfl⟩
    exact ⟨_, member, by simp [rules, attackRules]⟩

theorem constraint_mem_program {body : List (BodyLiteral α)} :
    .constraint body ∈ program elements ↔
      ∃ attacker attacked, .attack attacker attacked ∈ elements ∧
        (body = [.holds (.inside attacker), .holds (.inside attacked),
            .holds (.attack attacker attacked)] ∨
          body = [.holds (.inside attacked), .holds (.undefended attacked)]) := by
  rw [mem_program]
  constructor
  · rintro ⟨element, member, listed⟩
    cases element with
    | argument label => simp [rules, argumentRules] at listed
    | attack attacker attacked =>
      exact ⟨attacker, attacked, member, by simpa [rules, attackRules] using listed⟩
  · rintro ⟨attacker, attacked, member, rfl | rfl⟩
    · exact ⟨_, member, by simp [rules, attackRules]⟩
    · exact ⟨_, member, by simp [rules, attackRules]⟩

/-- Each argument makes its own label visible. -/
theorem filterMap_visible?_program (elements : List (Element α)) :
    (program elements).filterMap Rule.visible? = labels elements := by
  induction elements with
  | nil => rfl
  | cons element rest ih =>
    simp only [program, List.flatMap_cons, List.filterMap_append] at ih ⊢
    rw [ih]
    cases element <;> rfl

/-- The programs of frameworks are tight: of the derived atoms, only that an argument is defeated
depends positively on another one. -/
theorem tight_program (elements : List (Element α)) : Tight (program elements) := by
  refine .of_rank (fun atom => if atom matches .defeated _ then 1 else 0) ?_
  rintro head atom ⟨body, member, inside, plain⟩
  obtain ⟨element, _, listed⟩ := mem_program.mp member
  cases element with
  | argument label =>
    simp only [rules, argumentRules, List.mem_cons, reduceCtorEq, Rule.derive.injEq,
      List.not_mem_nil, or_false, false_or] at listed
    rcases listed with ⟨rfl, rfl⟩ | ⟨rfl, rfl⟩ <;> simp_all [Atom.isStructural]
  | attack attacker attacked =>
    simp only [rules, attackRules, List.mem_cons, reduceCtorEq, Rule.derive.injEq,
      List.not_mem_nil, or_false, false_or] at listed
    rcases listed with ⟨rfl, rfl⟩ | ⟨rfl, rfl⟩ <;>
      cases atom <;> simp_all [Atom.isStructural]

end Rules

/-- What the completion of a program of elements says, atom by atom. -/
structure IsEncoded (elements : List (Element α)) (values : Element α -> Bool)
    (model : Interpretation α) : Prop where
  external : forall element, element ∈ elements -> model element.flagAtom = values element
  inside : forall label, model (.inside label) = true ↔
    .argument label ∈ elements ∧ model (.outside label) = false ∧ model (.argument label) = true
  outside : forall label, model (.outside label) = true ↔
    .argument label ∈ elements ∧ model (.inside label) = false ∧ model (.argument label) = true
  defeated : forall attacked, model (.defeated attacked) = true ↔
    ∃ attacker, .attack attacker attacked ∈ elements ∧ model (.inside attacker) = true ∧
      model (.attack attacker attacked) = true
  undefended : forall attacked, model (.undefended attacked) = true ↔
    ∃ attacker, .attack attacker attacked ∈ elements ∧
      model (.attack attacker attacked) = true ∧ model (.defeated attacker) = false
  conflictFree : forall attacker attacked, .attack attacker attacked ∈ elements ->
    model (.inside attacker) = true -> model (.inside attacked) = true ->
      model (.attack attacker attacked) = false
  defended : forall attacker attacked, .attack attacker attacked ∈ elements ->
    model (.inside attacked) = true -> model (.undefended attacked) = false

section Completion

variable {elements : List (Element α)} {model : Interpretation α}

theorem supported_inside (label : α) :
    (∃ body, .derive (.inside label) body ∈ program elements ∧ model.satisfies body = true) ↔
      .argument label ∈ elements ∧ model (.outside label) = false ∧
        model (.argument label) = true := by
  simp [derive_inside_mem_program, and_assoc, Interpretation.satisfies, BodyLiteral.isTrueIn]

theorem supported_outside (label : α) :
    (∃ body, .derive (.outside label) body ∈ program elements ∧ model.satisfies body = true) ↔
      .argument label ∈ elements ∧ model (.inside label) = false ∧
        model (.argument label) = true := by
  simp [derive_outside_mem_program, and_assoc, Interpretation.satisfies, BodyLiteral.isTrueIn]

theorem supported_defeated (attacked : α) :
    (∃ body, .derive (.defeated attacked) body ∈ program elements ∧
        model.satisfies body = true) ↔
      ∃ attacker, .attack attacker attacked ∈ elements ∧ model (.inside attacker) = true ∧
        model (.attack attacker attacked) = true := by
  simp only [derive_defeated_mem_program]
  constructor
  · rintro ⟨_, ⟨attacker, member, rfl⟩, satisfied⟩
    exact ⟨attacker, member, by
      simpa [Interpretation.satisfies, BodyLiteral.isTrueIn] using satisfied⟩
  · rintro ⟨attacker, member, inside, present⟩
    exact ⟨_, ⟨attacker, member, rfl⟩, by
      simp [Interpretation.satisfies, BodyLiteral.isTrueIn, inside, present]⟩

theorem supported_undefended (attacked : α) :
    (∃ body, .derive (.undefended attacked) body ∈ program elements ∧
        model.satisfies body = true) ↔
      ∃ attacker, .attack attacker attacked ∈ elements ∧
        model (.attack attacker attacked) = true ∧ model (.defeated attacker) = false := by
  simp only [derive_undefended_mem_program]
  constructor
  · rintro ⟨_, ⟨attacker, member, rfl⟩, satisfied⟩
    exact ⟨attacker, member, by
      simpa [Interpretation.satisfies, BodyLiteral.isTrueIn] using satisfied⟩
  · rintro ⟨attacker, member, present, undefeated⟩
    exact ⟨_, ⟨attacker, member, rfl⟩, by
      simp [Interpretation.satisfies, BodyLiteral.isTrueIn, present, undefeated]⟩

theorem isCompletionModel_iff {values : Element α -> Bool} :
    IsCompletionModel (program elements) values model ↔ IsEncoded elements values model := by
  constructor
  · rintro ⟨external, derived, constraint⟩
    refine ⟨fun element member => external element (external_mem_program.mpr member),
      fun label => (derived _ rfl).trans (supported_inside label),
      fun label => (derived _ rfl).trans (supported_outside label),
      fun attacked => (derived _ rfl).trans (supported_defeated attacked),
      fun attacked => (derived _ rfl).trans (supported_undefended attacked),
      fun attacker attacked member first second => ?_, fun attacker attacked member first => ?_⟩
    · have violated := constraint _ (constraint_mem_program.mpr
        ⟨attacker, attacked, member, .inl rfl⟩)
      simpa [Interpretation.satisfies, BodyLiteral.isTrueIn, first, second] using violated
    · have violated := constraint _ (constraint_mem_program.mpr
        ⟨attacker, attacked, member, .inr rfl⟩)
      simpa [Interpretation.satisfies, BodyLiteral.isTrueIn, first] using violated
  · intro encoded
    refine ⟨fun element member => encoded.external element (external_mem_program.mp member),
      fun atom plain => ?_, fun body member => ?_⟩
    · cases atom with
      | argument label => simp [Atom.isStructural] at plain
      | attack attacker attacked => simp [Atom.isStructural] at plain
      | inside label => exact (encoded.inside label).trans (supported_inside label).symm
      | outside label => exact (encoded.outside label).trans (supported_outside label).symm
      | defeated attacked =>
        exact (encoded.defeated attacked).trans (supported_defeated attacked).symm
      | undefended attacked =>
        exact (encoded.undefended attacked).trans (supported_undefended attacked).symm
    · obtain ⟨attacker, attacked, listed, rfl | rfl⟩ := constraint_mem_program.mp member
      · have conflictFree := encoded.conflictFree attacker attacked listed
        cases first : model (.inside attacker) <;> cases second : model (.inside attacked) <;>
          simp_all [Interpretation.satisfies, BodyLiteral.isTrueIn]
      · have defended := encoded.defended attacker attacked listed
        cases first : model (.inside attacked) <;>
          simp_all [Interpretation.satisfies, BodyLiteral.isTrueIn]

end Completion

section Sets

variable {elements : List (Element α)} {values : Element α -> Bool}

/-- The members of a model of the program are an admissible set of the active elements. -/
theorem IsEncoded.isAdmissible {model : Interpretation α}
    (encoded : IsEncoded elements values model)
    (known : forall element, values element = true -> element ∈ elements) {members : List α}
    (inside : forall label, label ∈ members ↔ model (.inside label) = true) :
    IsAdmissible (fun label => values (.argument label) = true)
      (fun attacker attacked => values (.attack attacker attacked) = true) members where
  active label member := by
    obtain ⟨listed, _, present⟩ := (encoded.inside label).mp ((inside label).mp member)
    exact (encoded.external _ listed).symm.trans present
  conflictFree attacker attacked attack first second := by
    have listed := known _ attack
    have absent := encoded.conflictFree attacker attacked listed ((inside _).mp first)
      ((inside _).mp second)
    rw [encoded.external (.attack attacker attacked) listed |>.symm] at attack
    simp [Element.flagAtom, absent] at attack
  defended attacker attacked attack member := by
    have listed := known _ attack
    have present := (encoded.external _ listed).trans attack
    have defended := encoded.defended attacker attacked listed ((inside _).mp member)
    have defeated : model (.defeated attacker) = true := by
      by_contra undefeated
      rw [Bool.not_eq_true] at undefeated
      have undefended := (encoded.undefended attacked).mpr
        ⟨attacker, listed, present, undefeated⟩
      simp [defended] at undefended
    obtain ⟨defender, other, first, second⟩ := (encoded.defeated attacker).mp defeated
    exact ⟨defender, (encoded.external _ other).symm.trans second, (inside _).mpr first⟩

variable [DecidableEq α]

/-- The model that a set of labels determines. -/
def modelOf (elements : List (Element α)) (values : Element α -> Bool) (members : List α) :
    Interpretation α
  | .argument label => values (.argument label)
  | .attack attacker attacked => values (.attack attacker attacked)
  | .inside label => members.contains label
  | .outside label => values (.argument label) && !members.contains label
  | .defeated attacked => members.any fun attacker => values (.attack attacker attacked)
  | .undefended attacked =>
    elements.any fun
      | .argument _ => false
      | .attack attacker target => target = attacked && values (.attack attacker attacked) &&
        !members.any fun defender => values (.attack defender attacker)

/-- An argument is undefended when no member attacks one of its attackers. -/
theorem modelOf_undefended {members : List α} {attacked : α} :
    modelOf elements values members (.undefended attacked) = true ↔
      ∃ attacker, .attack attacker attacked ∈ elements ∧
        values (.attack attacker attacked) = true ∧
        modelOf elements values members (.defeated attacker) = false := by
  simp only [modelOf, List.any_eq_true]
  constructor
  · rintro ⟨element, member, undefended⟩
    cases element with
    | argument label => simp at undefended
    | attack attacker target =>
      simp only [Bool.and_eq_true, decide_eq_true_eq, Bool.not_eq_true'] at undefended
      obtain ⟨⟨rfl, attack⟩, undefeated⟩ := undefended
      exact ⟨attacker, member, attack, undefeated⟩
  · rintro ⟨attacker, member, attack, undefeated⟩
    exact ⟨_, member, by simp [attack, undefeated]⟩

/-- An admissible set determines a model of the program. -/
theorem isEncoded_modelOf {members : List α}
    (known : forall element, values element = true -> element ∈ elements)
    (admissible : IsAdmissible (fun label => values (.argument label) = true)
      (fun attacker attacked => values (.attack attacker attacked) = true) members) :
    IsEncoded elements values (modelOf elements values members) where
  external element _ := by cases element <;> rfl
  inside label := by
    simp only [modelOf, List.contains_iff_mem]
    constructor
    · intro member
      have active := admissible.active label member
      exact ⟨known _ active, by simp [active, member], active⟩
    · rintro ⟨_, outside, active⟩
      simpa [active] using outside
  outside label := by
    cases active : values (.argument label) with
    | false => simp [modelOf, active]
    | true => simp [modelOf, active, known _ active]
  defeated attacked := by
    simp only [modelOf, List.any_eq_true, List.contains_iff_mem]
    constructor
    · rintro ⟨attacker, member, attack⟩
      exact ⟨attacker, known _ attack, member, attack⟩
    · rintro ⟨attacker, _, member, attack⟩
      exact ⟨attacker, member, attack⟩
  undefended _ := modelOf_undefended
  conflictFree attacker attacked _ first second := by
    simp only [modelOf, List.contains_iff_mem] at first second ⊢
    rw [← Bool.not_eq_true]
    exact fun attack => admissible.conflictFree attacker attacked attack first second
  defended attacker attacked _ first := by
    simp only [modelOf, List.contains_iff_mem] at first
    rw [← Bool.not_eq_true, modelOf_undefended]
    rintro ⟨source, _, attack, undefeated⟩
    obtain ⟨defender, defends, member⟩ := admissible.defended source attacked attack first
    simp only [modelOf, List.any_eq_false] at undefeated
    exact undefeated defender member defends

/-- Distinct labels are visible in the order of their arguments. -/
theorem projection_program (distinct : (labels elements).Nodup) (model : Interpretation α) :
    projection (program elements) model =
      (labels elements).filter fun label => model (.inside label) := by
  rw [projection, visible, filterMap_visible?_program, eraseDups_of_nodup distinct]

/-- What a model shows is an admissible set. -/
theorem isAdmissible_projection {model : Interpretation α} (distinct : (labels elements).Nodup)
    (known : forall element, values element = true -> element ∈ elements)
    (completion : IsCompletionModel (program elements) values model) :
    IsAdmissible (fun label => values (.argument label) = true)
      (fun attacker attacked => values (.attack attacker attacked) = true)
      (projection (program elements) model) := by
  have encoded := isCompletionModel_iff.mp completion
  refine encoded.isAdmissible known fun label => ?_
  rw [projection_program distinct, List.mem_filter, mem_labels]
  exact ⟨And.right, fun inside => ⟨((encoded.inside label).mp inside).1, inside⟩⟩

/-- Every admissible set is shown by a model. -/
theorem projection_modelOf {members : List α} (distinct : (labels elements).Nodup)
    (sublist : members.Sublist (labels elements)) :
    projection (program elements) (modelOf elements values members) = members := by
  rw [projection_program distinct]
  exact filter_mem_of_sublist distinct sublist

/-- The models of the program of some elements show the admissible sets of the active ones, in the
order of the elements. -/
theorem exists_projection_iff (distinct : (labels elements).Nodup)
    (known : forall element, values element = true -> element ∈ elements) (members : List α) :
    (∃ model, IsCompletionModel (program elements) values model ∧
        members = projection (program elements) model) ↔
      members.Sublist (labels elements) ∧
        IsAdmissible (fun label => values (.argument label) = true)
          (fun attacker attacked => values (.attack attacker attacked) = true) members := by
  constructor
  · rintro ⟨model, completion, rfl⟩
    refine ⟨?_, isAdmissible_projection distinct known completion⟩
    rw [projection_program distinct]
    exact List.filter_sublist
  · rintro ⟨sublist, admissible⟩
    exact ⟨_, isCompletionModel_iff.mpr (isEncoded_modelOf known admissible),
      (projection_modelOf distinct sublist).symm⟩

end Sets

end Encoding

end Argumentation
