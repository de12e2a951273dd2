import Argumentation.Program.Rule
import Argumentation.Proofs.Text.Readability
import Mathlib

/-!
# Rules can be read off their texts

The text of a batch determines its rules, the text of a rule its atoms, and the text of an atom its
labels, when the labels are valid. An atom ends with its parenthesis, a rule with its period, and
neither occurs in a label; so atoms, literals and rules are prefix-free, each because its parts are.
-/

namespace Argumentation

instance : LawfulLabel Int := ⟨Int.repr_injective⟩

open Text (PrefixFree)

variable {α : Type}

namespace Atom

/-- The word in front of the parenthesis. -/
def keyword : Atom α -> List Char
  | .argument _ => ['a', 'r', 'g']
  | .attack _ _ => ['a', 't', 't']
  | .inside _ => ['i', 'n']
  | .outside _ => ['o', 'u', 't']
  | .defeated _ => ['d', 'e', 'f', 'e', 'a', 't', 'e', 'd']
  | .undefended _ => ['n', 'o', 't', '_', 'd', 'e', 'f', 'e', 'n', 'd', 'e', 'd']

/-- The labels between the parentheses. -/
def labels : Atom α -> List α
  | .argument label | .inside label | .outside label | .defeated label | .undefended label =>
    [label]
  | .attack attacker attacked => [attacker, attacked]

/-- An atom is known from its word and its labels. -/
theorem eq_of_keyword_eq {first second : Atom α} (words : first.keyword = second.keyword)
    (labels : first.labels = second.labels) : first = second := by
  cases first <;> cases second <;> simp_all [keyword, Atom.labels]

/-- A word has no parentheses. -/
theorem not_mem_keyword (atom : Atom α) {character : Char} (other : character ∈ ['(', ')']) :
    character ∉ atom.keyword := by
  cases atom <;> revert character <;> simp [keyword]

variable [Label α]

/-- An atom over valid labels. -/
def IsValid (atom : Atom α) : Prop :=
  forall label, label ∈ atom.labels -> Label.isValid label = true

instance (atom : Atom α) : Decidable atom.IsValid :=
  inferInstanceAs (Decidable (forall label, label ∈ atom.labels -> Label.isValid label = true))

/-- All atoms are written alike: a word, and labels between parentheses. -/
theorem toList_text (atom : Atom α) :
    atom.text.toList = atom.keyword ++ '(' :: Label.joined atom.labels ++ [')'] := by
  cases atom <;> simp [text, keyword, labels, Label.joined]

/-- The parenthesis that closes an atom is the first one. -/
theorem IsValid.not_mem {atom : Atom α} (valid : atom.IsValid) :
    ')' ∉ atom.keyword ++ '(' :: Label.joined atom.labels := by
  have word : ')' ∉ atom.keyword := atom.not_mem_keyword (by decide)
  have inner : ')' ∉ Label.joined atom.labels :=
    Label.not_mem_joined valid (by decide) (by decide)
  simp [word, inner]

theorem prefixFree [LawfulLabel α] :
    PrefixFree (@IsValid α _) fun atom => atom.text.toList := by
  intro first second valid valid' rest rest' same
  simp only [toList_text, List.append_assoc, List.singleton_append] at same
  obtain ⟨inner, tails⟩ := Text.cut_inj valid.not_mem valid'.not_mem (by simpa using same)
  obtain ⟨words, labels⟩ := Text.cut_inj (first.not_mem_keyword (by decide))
    (second.not_mem_keyword (by decide)) inner
  exact ⟨eq_of_keyword_eq words (Label.joined_inj valid valid' labels), tails⟩

/-- An atom starts with a letter. -/
theorem exists_toList_text (atom : Atom α) :
    ∃ letter rest, letter ∈ ['a', 'd', 'i', 'n', 'o'] ∧ atom.text.toList = letter :: rest := by
  rw [toList_text]
  cases atom <;> exact ⟨_, _, by simp, rfl⟩

end Atom

namespace BodyLiteral

variable [Label α]

/-- A literal over valid labels. -/
def IsValid (literal : BodyLiteral α) : Prop :=
  literal.atom.IsValid

/-- No atom is written like a denied one, as the word `not_defended` has no blank. -/
theorem text_ne_denied (atom : Atom α) (rest tail : List Char) :
    atom.text.toList ++ rest ≠ "not ".toList ++ tail := by
  rw [Atom.toList_text]
  cases atom <;> simp [Atom.keyword]

theorem prefixFree [LawfulLabel α] :
    PrefixFree (@IsValid α _) fun literal => literal.text.toList := by
  intro first second valid valid' rest rest' same
  cases first with
  | holds atom =>
    cases second with
    | holds other =>
      obtain ⟨rfl, tails⟩ := Atom.prefixFree atom other valid valid' rest rest' same
      exact ⟨rfl, tails⟩
    | fails other =>
      simp only [text, String.toList_append, List.append_assoc] at same
      exact absurd same (text_ne_denied atom rest _)
  | fails atom =>
    cases second with
    | holds other =>
      simp only [text, String.toList_append, List.append_assoc] at same
      exact absurd same.symm (text_ne_denied other rest' _)
    | fails other =>
      simp only [text, String.toList_append, List.append_assoc, List.append_cancel_left_eq] at same
      obtain ⟨rfl, tails⟩ := Atom.prefixFree atom other valid valid' rest rest' same
      exact ⟨rfl, tails⟩

/-- A literal starts with a letter. -/
theorem exists_toList_text (literal : BodyLiteral α) :
    ∃ letter rest, letter ∈ ['a', 'd', 'i', 'n', 'o'] ∧ literal.text.toList = letter :: rest := by
  cases literal with
  | holds atom => exact atom.exists_toList_text
  | fails atom => exact ⟨'n', _, by simp, by rw [text, String.toList_append]; rfl⟩

end BodyLiteral

namespace Rule

variable [Label α]

/-- A rule over valid labels. -/
def IsValid (rule : Rule α) : Prop :=
  forall atom, atom ∈ rule.atoms -> atom.IsValid

instance (rule : Rule α) : Decidable rule.IsValid :=
  inferInstanceAs (Decidable (forall atom, atom ∈ rule.atoms -> atom.IsValid))

/-- A period ends a body: neither a literal nor a comma starts with it. -/
theorem ends_period (rest : List Char) :
    Text.Ends (@BodyLiteral.IsValid α _) (fun literal => literal.text.toList) [',', ' ']
      ('.' :: rest) where
  item literal tail _ same := by
    obtain ⟨letter, others, known, split⟩ := literal.exists_toList_text
    rw [split, List.cons_append, List.cons.injEq] at same
    rw [← same.1] at known
    exact absurd known (by decide)
  separator tail := by simp

/-- The literals of a body are known from any text that starts with them and goes on with a
period. -/
theorem body_inj [LawfulLabel α] {first second : List (BodyLiteral α)}
    (valid : forall literal, literal ∈ first -> literal.IsValid)
    (valid' : forall literal, literal ∈ second -> literal.IsValid) {rest rest' : List Char}
    (same : (bodyText first).toList ++ '.' :: rest = (bodyText second).toList ++ '.' :: rest') :
    first = second ∧ rest = rest' := by
  have written (body : List (BodyLiteral α)) : (bodyText body).toList =
      [',', ' '].intercalate (body.map fun literal => literal.text.toList) := by
    rw [bodyText, String.toList_intercalate, List.map_map]
    rfl
  rw [written, written] at same
  obtain ⟨rfl, tails⟩ := BodyLiteral.prefixFree.intercalate valid valid' (ends_period rest)
    (ends_period rest') same
  exact ⟨rfl, List.tail_eq_of_cons_eq tails⟩

/-- What is written after the head of a rule. -/
def conditionsText : List (BodyLiteral α) -> List Char
  | [] => ['.']
  | body => [' ', ':', '-', ' '] ++ ((bodyText body).toList ++ ['.'])

theorem toList_text_derive (head : Atom α) (body : List (BodyLiteral α)) :
    (derive head body).text.toList = head.text.toList ++ conditionsText body := by
  cases body <;> simp [text, conditionsText]

/-- An arrow tells whether a rule has conditions. -/
theorem conditions_inj [LawfulLabel α] {first second : List (BodyLiteral α)}
    (valid : forall literal, literal ∈ first -> literal.IsValid)
    (valid' : forall literal, literal ∈ second -> literal.IsValid) {rest rest' : List Char}
    (same : conditionsText first ++ rest = conditionsText second ++ rest') :
    first = second ∧ rest = rest' := by
  cases first with
  | nil =>
    cases second with
    | nil => exact ⟨rfl, List.tail_eq_of_cons_eq same⟩
    | cons other second => simp [conditionsText] at same
  | cons literal first =>
    cases second with
    | nil => simp [conditionsText] at same
    | cons other second =>
      simp only [conditionsText, List.append_assoc, List.append_cancel_left_eq] at same
      exact body_inj valid valid' same

/-- An atom and a period are known from any text that starts with them. -/
theorem atom_inj [LawfulLabel α] {first second : Atom α} (valid : first.IsValid)
    (valid' : second.IsValid) {rest rest' : List Char}
    (same : first.text.toList ++ '.' :: rest = second.text.toList ++ '.' :: rest') :
    first = second ∧ rest = rest' := by
  obtain ⟨rfl, tails⟩ := Atom.prefixFree first second valid valid' _ _ same
  exact ⟨rfl, List.tail_eq_of_cons_eq tails⟩

/-- The two characters that tell the kinds of rules apart; a derivation starts with its head. -/
def mark : Rule α -> List Char
  | .external _ => ['#', 'e']
  | .derive head _ => head.keyword.take 2
  | .constraint _ => [':', '-']
  | .declare _ => ['#', 'o']
  | .display _ => ['#', 's']

theorem take_text (rule : Rule α) (rest : List Char) :
    (rule.text.toList ++ rest).take 2 = rule.mark := by
  cases rule with
  | derive head body =>
    have starts (tail : List Char) : (head.text.toList ++ tail).take 2 = head.keyword.take 2 := by
      rw [Atom.toList_text]
      cases head <;> simp [Atom.keyword]
    cases body with
    | nil => simpa [text, mark, List.append_assoc] using starts ('.' :: rest)
    | cons literal body => simp [text, mark, List.append_assoc, starts]
  | _ => simp [text, mark]

theorem IsValid.head {rule : Rule α} (valid : rule.IsValid) {atom : Atom α}
    (found : rule.head? = some atom) : atom.IsValid :=
  valid atom (by simp [atoms, found])

theorem IsValid.body {rule : Rule α} (valid : rule.IsValid) :
    forall literal, literal ∈ rule.body -> literal.IsValid := fun literal member =>
  valid literal.atom (by simp [atoms, List.mem_map_of_mem member])

theorem prefixFree [LawfulLabel α] :
    PrefixFree (@IsValid α _) fun rule => rule.text.toList := by
  intro first second valid valid' rest rest' same
  have marks : first.mark = second.mark := by
    rw [← take_text first rest, same, take_text]
  -- The marks leave the pairs of one kind only.
  cases first <;> cases second
  case external.external | declare.declare | display.display =>
    simp only [text, String.toList_append, List.append_assoc, List.append_cancel_left_eq] at same
    obtain ⟨rfl, tails⟩ := atom_inj (valid.head rfl) (valid'.head rfl) same
    exact ⟨rfl, tails⟩
  case constraint.constraint =>
    simp only [text, String.toList_append, List.append_assoc, List.append_cancel_left_eq] at same
    obtain ⟨rfl, tails⟩ := body_inj valid.body valid'.body same
    exact ⟨rfl, tails⟩
  case derive.derive head body other conditions =>
    simp only [toList_text_derive, List.append_assoc] at same
    obtain ⟨rfl, after⟩ := Atom.prefixFree head other (valid.head rfl) (valid'.head rfl) _ _ same
    obtain ⟨rfl, tails⟩ := conditions_inj valid.body valid'.body after
    exact ⟨rfl, tails⟩
  case derive.external head _ _ | derive.constraint head _ _ | derive.declare head _ _
      | derive.display head _ _ =>
    cases head <;> simp [mark, Atom.keyword] at marks
  case external.derive head _ | constraint.derive head _ | declare.derive head _
      | display.derive head _ =>
    cases head <;> simp [mark, Atom.keyword] at marks
  all_goals simp [mark] at marks

/-- Nothing ends a batch: rules are not empty, and a blank only stands before another one. -/
theorem ends_nil : Text.Ends (@IsValid α _) (fun rule => rule.text.toList) [' '] [] where
  item rule tail _ same := by
    have mark := rule.take_text tail
    rw [← same] at mark
    cases rule with
    | derive head => cases head <;> simp [Rule.mark, Atom.keyword] at mark
    | _ => simp [Rule.mark] at mark
  separator tail := by simp

end Rule

namespace Batch

variable [Label α]

/-- A batch over valid labels. -/
def IsValid (batch : Batch α) : Prop :=
  forall rule, rule ∈ batch.rules -> rule.IsValid

instance (batch : Batch α) : Decidable batch.IsValid :=
  inferInstanceAs (Decidable (forall rule, rule ∈ batch.rules -> rule.IsValid))

/-- The rules of a batch are known from its text. -/
theorem rules_eq_of_text_eq [LawfulLabel α] {first second : Batch α} (valid : first.IsValid)
    (valid' : second.IsValid) (same : first.text = second.text) : first.rules = second.rules := by
  have written (batch : Batch α) : batch.text.toList =
      [' '].intercalate (batch.rules.map fun rule => rule.text.toList) := by
    rw [text, String.toList_intercalate, List.map_map]
    rfl
  have texts := congrArg String.toList same
  rw [written, written] at texts
  exact (Rule.prefixFree.intercalate valid valid' Rule.ends_nil Rule.ends_nil (by rw [texts])).1

end Batch

/-- Over valid labels an atom, a literal and a rule is known from its text, and the rules of a batch
are known from the text of the batch. -/
theorem text_injOn [Label α] [LawfulLabel α] :
    Set.InjOn Atom.text {atom : Atom α | atom.IsValid} ∧
    Set.InjOn BodyLiteral.text {literal : BodyLiteral α | literal.IsValid} ∧
    Set.InjOn Rule.text {rule : Rule α | rule.IsValid} ∧
    forall first second : Batch α, first.IsValid -> second.IsValid -> first.text = second.text ->
      first.rules = second.rules := by
  refine ⟨?_, ?_, ?_, fun first second => Batch.rules_eq_of_text_eq⟩
  · exact fun first valid second valid' same =>
      Atom.prefixFree.inj valid valid' (congrArg String.toList same)
  · exact fun first valid second valid' same =>
      BodyLiteral.prefixFree.inj valid valid' (congrArg String.toList same)
  · exact fun first valid second valid' same =>
      Rule.prefixFree.inj valid valid' (congrArg String.toList same)

/-- Texts that differ in one character, and labels that are numbers. -/
theorem text_injOn_lookalike :
    (let denied : Batch String :=
        ⟨.argument "a", [.derive (.inside "#open") [.fails (.defeated "not")], .constraint []]⟩
      let undefended : Batch String :=
        ⟨.argument "a", [.derive (.inside "#open") [.holds (.undefended "not")], .constraint []]⟩
      denied.IsValid ∧ undefended.IsValid ∧ denied.text = "in(#open) :- not defeated(not). :- ." ∧
        undefended.text = "in(#open) :- not_defended(not). :- ." ∧ denied.text ≠ undefended.text) ∧
    (let attack : Batch Int :=
        ⟨.attack (-1) 2, [.external (.attack (-1) 2), .derive (.defeated 2) []]⟩
      let loop : Batch Int :=
        ⟨.attack 2 2, [.external (.attack (-1) 2), .derive (.defeated 2) []]⟩
      attack.IsValid ∧ loop.IsValid ∧ attack.text = loop.text ∧ attack.rules = loop.rules) := by
  refine ⟨?_, ?_⟩
  · intro denied undefended
    have valid : denied.IsValid := by decide
    have valid' : undefended.IsValid := by decide
    refine ⟨valid, valid', by decide, by decide, fun same => ?_⟩
    exact absurd (text_injOn.2.2.2 _ _ valid valid' same) (by decide)
  · intro attack loop
    have valid : attack.IsValid := by decide
    have valid' : loop.IsValid := by decide
    exact ⟨valid, valid', rfl, text_injOn.2.2.2 _ _ valid valid' rfl⟩

end Argumentation
