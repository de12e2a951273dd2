import Argumentation.Program.Rule
import Mathlib.Data.List.Induction

/-!
# Completion models

What the rules of a program mean. An interpretation gives every atom a truth value. It is a model of
the completion when the external atoms have their given values, every other atom is true exactly
when one of its bodies is, and no constraint is violated. What an interpretation shows of itself is
the list of the visible labels whose membership it makes true.
-/

namespace Argumentation

/-- A truth value for each atom. -/
abbrev Interpretation (α : Type) := Atom α -> Bool

variable {α : Type}

@[simp]
theorem Element.isStructural_flagAtom (element : Element α) :
    element.flagAtom.isStructural = true := by
  cases element <;> rfl

@[simp]
theorem Element.flagAtom_inj {left right : Element α} :
    left.flagAtom = right.flagAtom ↔ left = right := by
  cases left <;> cases right <;> simp [Element.flagAtom]

/-- Structural atoms are those of the elements. -/
theorem Atom.exists_flagAtom {atom : Atom α} (structural : atom.isStructural = true) :
    ∃ element : Element α, element.flagAtom = atom := by
  cases atom with
  | argument label => exact ⟨.argument label, rfl⟩
  | attack attacker attacked => exact ⟨.attack attacker attacked, rfl⟩
  | _ => simp [Atom.isStructural] at structural

/-- Whether an interpretation makes a body literal true. -/
def BodyLiteral.isTrueIn (model : Interpretation α) : BodyLiteral α -> Bool
  | .holds atom => model atom
  | .fails atom => !model atom

/-- Whether an interpretation makes all the literals of a body true. -/
def Interpretation.satisfies (model : Interpretation α) (body : List (BodyLiteral α)) : Bool :=
  body.all (BodyLiteral.isTrueIn model)

/-- Only the atoms of a literal decide its truth. -/
theorem BodyLiteral.isTrueIn_congr {left right : Interpretation α} {literal : BodyLiteral α}
    (agree : left literal.atom = right literal.atom) :
    literal.isTrueIn left = literal.isTrueIn right := by
  cases literal <;> simpa [BodyLiteral.isTrueIn, BodyLiteral.atom] using agree

/-- Only the atoms of a body decide its truth. -/
theorem Interpretation.satisfies_congr {left right : Interpretation α}
    {body : List (BodyLiteral α)}
    (agree : forall literal, literal ∈ body -> left literal.atom = right literal.atom) :
    left.satisfies body = right.satisfies body := by
  induction body with
  | nil => rfl
  | cons literal rest ih =>
    have first := BodyLiteral.isTrueIn_congr (agree literal List.mem_cons_self)
    have others := ih fun other member => agree other (List.mem_cons_of_mem literal member)
    simp only [Interpretation.satisfies] at others
    simp only [Interpretation.satisfies, List.all_cons, first, others]

/-- The rules of some batches, in order. -/
def programOf (batches : List (Batch α)) : List (Rule α) :=
  batches.flatMap Batch.rules

/-- The head and the body of a derivation. -/
def Rule.derivation? : Rule α -> Option (Atom α × List (BodyLiteral α))
  | .derive head body => some (head, body)
  | _ => none

/-- The label that a rule makes visible. -/
def Rule.visible? : Rule α -> Option α
  | .display (.inside label) => some label
  | _ => none

/-- The derivations of a program, in order. -/
def derivations (rules : List (Rule α)) : List (Atom α × List (BodyLiteral α)) :=
  rules.filterMap Rule.derivation?

theorem mem_derivations {rules : List (Rule α)} {head : Atom α} {body : List (BodyLiteral α)} :
    (head, body) ∈ derivations rules ↔ .derive head body ∈ rules := by
  simp only [derivations, List.mem_filterMap]
  constructor
  · rintro ⟨rule, member, same⟩
    cases rule <;> simp_all [Rule.derivation?]
  · intro member
    exact ⟨_, member, rfl⟩

/-- An interpretation that is a model of the completion of a program, under given values of its
external atoms. -/
structure IsCompletionModel (rules : List (Rule α)) (values : Element α -> Bool)
    (model : Interpretation α) : Prop where
  external : forall element, .external element.flagAtom ∈ rules ->
    model element.flagAtom = values element
  derived : forall atom, atom.isStructural = false ->
    (model atom = true ↔ ∃ body, .derive atom body ∈ rules ∧ model.satisfies body = true)
  constraint : forall body, .constraint body ∈ rules -> model.satisfies body = false

/-- Only which rules a program has matters for its models, not their order. -/
theorem IsCompletionModel.congr {rules others : List (Rule α)} {values : Element α -> Bool}
    {model : Interpretation α} (completion : IsCompletionModel rules values model)
    (same : forall rule, rule ∈ others ↔ rule ∈ rules) : IsCompletionModel others values model where
  external element declared := completion.external element ((same _).mp declared)
  derived atom plain := by simpa only [same] using completion.derived atom plain
  constraint body member := completion.constraint body ((same _).mp member)

variable [DecidableEq α]

/-- The labels that a program makes visible, in the order in which they first become so. -/
def visible (rules : List (Rule α)) : List α :=
  (rules.filterMap Rule.visible?).eraseDups

/-- The visible labels whose membership an interpretation makes true. -/
def projection (rules : List (Rule α)) (model : Interpretation α) : List α :=
  (visible rules).filter fun label => model (.inside label)

theorem eraseDups_of_nodup {labels : List α} (distinct : labels.Nodup) :
    labels.eraseDups = labels := by
  induction labels with
  | nil => rfl
  | cons label rest ih =>
    obtain ⟨new, distinct⟩ := List.nodup_cons.mp distinct
    have kept : rest.filter (fun other => !other == label) = rest :=
      List.filter_eq_self.mpr fun other member => by
        simpa using ne_of_mem_of_not_mem member new
    rw [List.eraseDups_cons, kept, ih distinct]

theorem mem_visible {rules : List (Rule α)} {label : α} :
    label ∈ visible rules ↔ .display (.inside label) ∈ rules := by
  simp only [visible, List.mem_eraseDups, List.mem_filterMap]
  constructor
  · rintro ⟨rule, member, same⟩
    unfold Rule.visible? at same
    split at same
    · cases same
      exact member
    · cases same
  · intro member
    exact ⟨_, member, rfl⟩

theorem mem_projection {rules : List (Rule α)} {model : Interpretation α} {label : α} :
    label ∈ projection rules model ↔
      .display (.inside label) ∈ rules ∧ model (.inside label) = true := by
  rw [projection, List.mem_filter, mem_visible]

/-- One more rule makes at most one more label visible. -/
theorem visible_append_singleton (rules : List (Rule α)) (rule : Rule α) :
    visible (rules ++ [rule]) =
      visible rules ++ (rule.visible?.toList.filter fun label => label ∉ visible rules) := by
  simp only [visible, List.filterMap_append, List.eraseDups_append, List.mem_eraseDups]
  generalize rules.filterMap Rule.visible? = before
  cases shown : rule.visible? with
  | none => simp [shown]
  | some label =>
    by_cases seen : label ∈ before <;>
      simp [shown, seen, List.removeAll, List.eraseDups_cons]

theorem visible_append_of_none {rules : List (Rule α)} {rule : Rule α}
    (unseen : rule.visible? = none) : visible (rules ++ [rule]) = visible rules := by
  simp [visible_append_singleton, unseen]

theorem nodup_visible (rules : List (Rule α)) : (visible rules).Nodup := by
  induction rules using List.reverseRecOn with
  | nil => simp [visible]
  | append_singleton rules rule ih =>
    rw [visible_append_singleton]
    cases shown : rule.visible? with
    | none => simpa [shown] using ih
    | some label =>
      by_cases seen : label ∈ visible rules
      · simpa [seen] using ih
      · simpa [seen, List.nodup_append, ih] using
          fun other member => ne_of_mem_of_not_mem member seen

end Argumentation
