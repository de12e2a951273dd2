import Argumentation.Label
import Mathlib.Data.List.Basic

/-!
# Texts that can be read off

What was written is known from its text when no reader can be in doubt about where it ends. A form
is prefix-free when this is so whatever follows. Separated items of a prefix-free form can be told
apart as long as what stands behind them is neither another separator nor another item. Labels alone
are not prefix-free, but valid ones hold no punctuation, and punctuation ends them.
-/

namespace Argumentation

namespace Text

/-- What stands before the first occurrence of a character is determined, and so is the rest. -/
theorem cut_inj {mark : Char} {first second rest rest' : List Char} (absent : mark ∉ first)
    (absent' : mark ∉ second) (same : first ++ mark :: rest = second ++ mark :: rest') :
    first = second ∧ rest = rest' := by
  induction first generalizing second with
  | nil =>
    cases second with
    | nil => exact ⟨rfl, List.tail_eq_of_cons_eq same⟩
    | cons character second =>
      obtain rfl : mark = character := List.head_eq_of_cons_eq same
      exact absurd List.mem_cons_self absent'
  | cons character first ih =>
    cases second with
    | nil =>
      obtain rfl : character = mark := List.head_eq_of_cons_eq same
      exact absurd List.mem_cons_self absent
    | cons other second =>
      rw [List.cons_append, List.cons_append, List.cons.injEq] at same
      obtain ⟨rfl, same⟩ := same
      obtain ⟨rfl, tails⟩ := ih (List.not_mem_of_not_mem_cons absent)
        (List.not_mem_of_not_mem_cons absent') same
      exact ⟨rfl, tails⟩

/-- A character that is neither in the parts nor in the separator is not in the joined text. -/
theorem not_mem_intercalate {character separator : Char} {parts : List (List Char)}
    (other : character ≠ separator) (absent : forall part, part ∈ parts -> character ∉ part) :
    character ∉ [separator].intercalate parts := by
  induction parts with
  | nil => simp
  | cons part parts ih =>
    have first := absent part List.mem_cons_self
    have later := ih fun part member => absent part (List.mem_cons_of_mem _ member)
    cases parts with
    | nil => simpa using first
    | cons next parts =>
      rw [List.intercalate_cons_cons]
      simp [first, other, later]

section PrefixFree

variable {β : Type} {property : β -> Prop} {write : β -> List Char}

/-- A written form that shows where it ends: a text starts with the form of one value at most. -/
def PrefixFree (property : β -> Prop) (write : β -> List Char) : Prop :=
  forall first second, property first -> property second -> forall rest rest',
    write first ++ rest = write second ++ rest' -> first = second ∧ rest = rest'

theorem PrefixFree.inj (free : PrefixFree property write) {first second : β}
    (allowed : property first) (allowed' : property second) (same : write first = write second) :
    first = second :=
  (free first second allowed allowed' [] [] (by rw [same])).1

/-- A text with which separated items end: it goes on neither with an item nor with a separator. -/
structure Ends (property : β -> Prop) (write : β -> List Char) (separator rest : List Char) :
    Prop where
  item : forall item tail, property item -> rest ≠ write item ++ tail
  separator : forall tail, rest ≠ separator ++ tail

/-- Separated items are the first one and the others, each with the separator in front. -/
theorem intercalate_cons (separator item : List Char) (items : List (List Char)) :
    separator.intercalate (item :: items) = item ++ items.flatMap (separator ++ ·) := by
  induction items generalizing item with
  | nil => simp
  | cons next items ih =>
    rw [List.intercalate_cons_cons, ih, List.flatMap_cons]
    simp only [List.append_assoc]

/-- Items with the separator in front are known from any text that starts with them. -/
theorem PrefixFree.followers (free : PrefixFree property write) {separator : List Char}
    {first second : List β} (allowed : forall item, item ∈ first -> property item)
    (allowed' : forall item, item ∈ second -> property item) {rest rest' : List Char}
    (stops : forall tail, rest ≠ separator ++ tail)
    (stops' : forall tail, rest' ≠ separator ++ tail)
    (same : (first.map write).flatMap (separator ++ ·) ++ rest =
      (second.map write).flatMap (separator ++ ·) ++ rest') :
    first = second ∧ rest = rest' := by
  induction first generalizing second with
  | nil =>
    cases second with
    | nil => exact ⟨rfl, same⟩
    | cons other second =>
      refine absurd ?_
        (stops (write other ++ ((second.map write).flatMap (separator ++ ·) ++ rest')))
      simpa using same
  | cons item first ih =>
    cases second with
    | nil =>
      refine absurd ?_
        (stops' (write item ++ ((first.map write).flatMap (separator ++ ·) ++ rest)))
      simpa using same.symm
    | cons other second =>
      simp only [List.map_cons, List.flatMap_cons, List.append_assoc,
        List.append_cancel_left_eq] at same
      obtain ⟨rfl, tails⟩ := free item other (allowed item List.mem_cons_self)
        (allowed' other List.mem_cons_self) _ _ same
      obtain ⟨rfl, ending⟩ := ih (fun next member => allowed next (List.mem_cons_of_mem _ member))
        (fun next member => allowed' next (List.mem_cons_of_mem _ member)) tails
      exact ⟨rfl, ending⟩

/-- Separated items of a prefix-free form are known from any text that starts with them. -/
theorem PrefixFree.intercalate (free : PrefixFree property write) {separator : List Char}
    {first second : List β} (allowed : forall item, item ∈ first -> property item)
    (allowed' : forall item, item ∈ second -> property item) {rest rest' : List Char}
    (ends : Ends property write separator rest) (ends' : Ends property write separator rest')
    (same : separator.intercalate (first.map write) ++ rest =
      separator.intercalate (second.map write) ++ rest') :
    first = second ∧ rest = rest' := by
  cases first with
  | nil =>
    cases second with
    | nil => exact ⟨rfl, same⟩
    | cons other second =>
      rw [List.map_cons, intercalate_cons, List.append_assoc] at same
      exact absurd same (ends.item other _ (allowed' other List.mem_cons_self))
  | cons item first =>
    cases second with
    | nil =>
      rw [List.map_cons, intercalate_cons, List.append_assoc] at same
      exact absurd same.symm (ends'.item item _ (allowed item List.mem_cons_self))
    | cons other second =>
      simp only [List.map_cons, intercalate_cons, List.append_assoc] at same
      obtain ⟨rfl, tails⟩ := free item other (allowed item List.mem_cons_self)
        (allowed' other List.mem_cons_self) _ _ same
      obtain ⟨rfl, ending⟩ := free.followers
        (fun next member => allowed next (List.mem_cons_of_mem _ member))
        (fun next member => allowed' next (List.mem_cons_of_mem _ member))
        ends.separator ends'.separator tails
      exact ⟨rfl, ending⟩

end PrefixFree

end Text

/-- A type of labels with different texts. -/
class LawfulLabel (α : Type) [Label α] : Prop where
  text_inj : forall {first second : α}, Label.text first = Label.text second -> first = second

instance : LawfulLabel String := ⟨id⟩

namespace Label

variable {α : Type} [Label α]

/-- Reserved characters do not occur in a valid label. -/
theorem not_mem_of_isValid {label : α} (valid : isValid label = true) {character : Char}
    (separates : character ∈ reserved) : character ∉ (text label).toList := by
  intro member
  simp only [isValid, Bool.and_eq_true, List.all_eq_true] at valid
  have plain := valid.2 character member
  simp [isPlain, separates] at plain

/-- The texts of some labels, joined with commas. -/
def joined (labels : List α) : List Char :=
  [','].intercalate (labels.map fun label => (text label).toList)

/-- Valid labels are not empty and have no commas, so joining them loses nothing. -/
theorem joined_inj [LawfulLabel α] {first second : List α}
    (valid : forall label, label ∈ first -> isValid label = true)
    (valid' : forall label, label ∈ second -> isValid label = true)
    (same : joined first = joined second) : first = second := by
  -- Splitting at the commas gives the texts back. Where there are none it gives an empty text,
  -- which is not that of a label.
  have parts : forall {labels : List α}, (forall label, label ∈ labels -> isValid label = true) ->
      ((joined labels).splitOn ',').filter (· ≠ []) =
        labels.map fun label => (text label).toList := by
    intro labels valid
    cases labels with
    | nil => rfl
    | cons label labels =>
      rw [joined, List.splitOn_intercalate ',' _ (by simp)]
      · refine List.filter_eq_self.mpr fun part member => ?_
        obtain ⟨other, known, rfl⟩ := List.mem_map.mp member
        have filled := valid other known
        simp only [isValid, Bool.and_eq_true, Bool.not_eq_true',
          List.isEmpty_eq_false_iff] at filled
        exact decide_eq_true filled.1
      · intro part member
        obtain ⟨other, known, rfl⟩ := List.mem_map.mp member
        exact not_mem_of_isValid (valid other known) (by decide)
  refine List.map_injective_iff.mpr (fun label other equal => ?_)
    ((parts valid).symm.trans (same ▸ parts valid'))
  exact LawfulLabel.text_inj (String.toList_injective equal)

/-- Reserved characters other than the comma do not occur in joined labels either. -/
theorem not_mem_joined {labels : List α}
    (valid : forall label, label ∈ labels -> isValid label = true) {character : Char}
    (separates : character ∈ reserved) (other : character ≠ ',') :
    character ∉ joined labels := by
  refine Text.not_mem_intercalate other fun part member => ?_
  obtain ⟨label, known, rfl⟩ := List.mem_map.mp member
  exact not_mem_of_isValid (valid label known) separates

end Label

end Argumentation
