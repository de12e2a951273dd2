import Argumentation.Format.Tgf
import Argumentation.Proofs.Format.Items

/-!
# Elements of the trivial graph format

An argument is named by its label and an attack by two labels with blanks between them, in instances
and in updates alike. Labels have no blanks, so a text names one element at most, and reading it
gives this element.
-/

namespace Argumentation.Format.Tgf

open Text (Blank Padded)

/-- A label of the format: one or more ASCII letters, digits, underscores and hyphens. -/
structure IsLabel (label : String) : Prop where
  filled : label ≠ ""
  characters : forall character, character ∈ label.toList ->
    character = '-' ∨ character = '_' ∨ character.isAlphanum = true

/-- The texts that name an element. -/
inductive Names : List Char -> Element String -> Prop
  | argument {label : String} {text : List Char} (isLabel : IsLabel label)
      (padded : Padded label.toList text) : Names text (.argument label)
  | attack {attacker attacked : String} {between text : List Char} (first : IsLabel attacker)
      (second : IsLabel attacked) (blank : Blank between) (apart : between ≠ [])
      (padded : Padded (attacker.toList ++ between ++ attacked.toList) text) :
      Names text (.attack attacker attacked)

theorem isLabelCharacter_iff {character : Char} :
    isLabelCharacter character = true ↔
      character = '-' ∨ character = '_' ∨ character.isAlphanum = true := by
  simp [isLabelCharacter, or_assoc]

theorem isLabel_iff_all {label : String} :
    IsLabel label ↔ label ≠ "" ∧ label.toList.all isLabelCharacter = true := by
  simp only [List.all_eq_true, isLabelCharacter_iff]
  exact ⟨fun isLabel => ⟨isLabel.filled, isLabel.characters⟩, fun found => ⟨found.1, found.2⟩⟩

instance (label : String) : Decidable (IsLabel label) :=
  decidable_of_iff _ isLabel_iff_all.symm

theorem IsLabel.isValid {label : String} (isLabel : IsLabel label) :
    Label.isValid label = true := by
  rw [← String.ofList_toList (s := label)]
  refine Label.isValid_ofList (fun empty => isLabel.filled (String.toList_eq_nil_iff.mp empty)) ?_
  intro character member
  exact Label.isPlain_of_isLabelCharacter
    (isLabelCharacter_iff.mpr (isLabel.characters character member))

theorem IsLabel.isWord {label : String} (isLabel : IsLabel label) : Text.IsWord label.toList :=
  Label.isWord_of_isValid isLabel.isValid

theorem IsLabel.colon_not_mem {label : String} (isLabel : IsLabel label) : ':' ∉ label.toList :=
  Label.not_mem_of_isValid isLabel.isValid (by decide)

/-- Labels are read as the words of a text. -/
theorem readLabels?_eq_some_iff {text : List Char} {labels : List String} :
    readLabels? text = some labels ↔
      Text.words text = labels.map String.toList ∧
        forall label, label ∈ labels -> IsLabel label := by
  constructor
  · intro read
    have valid := isValid_of_readLabels read
    simp only [readLabels?, Option.ite_none_right_eq_some, List.all_eq_true,
      Option.some.injEq] at read
    obtain ⟨allowed, rfl⟩ := read
    refine ⟨by simp [Function.comp_def], fun label member => ?_⟩
    have filled := (Label.isWord_of_isValid (valid label member)).filled
    obtain ⟨word, found, rfl⟩ := List.mem_map.mp member
    rw [isLabel_iff_all, String.toList_ofList, List.all_eq_true]
    exact ⟨mt String.toList_eq_nil_iff.mpr filled, allowed word found⟩
  · rintro ⟨words, labelled⟩
    have allowed :
        (labels.map String.toList).all (fun word => word.all isLabelCharacter) = true := by
      rw [List.all_map, List.all_eq_true]
      exact fun label member => (isLabel_iff_all.mp (labelled label member)).2
    rw [readLabels?, words, if_pos allowed, List.map_map]
    simp [Function.comp_def]

/-- A text is read as the element that it names. -/
theorem readElement?_eq_some_iff {text : List Char} {element : Element String} :
    readElement? text = some element ↔ Names text element := by
  constructor
  · intro read
    unfold readElement? at read
    split at read
    · rename_i label found
      cases read
      obtain ⟨words, labelled⟩ := readLabels?_eq_some_iff.mp found
      exact .argument (labelled label List.mem_cons_self) (Text.words_eq_singleton_iff.mp words).2
    · rename_i attacker attacked found
      cases read
      obtain ⟨words, labelled⟩ := readLabels?_eq_some_iff.mp found
      obtain ⟨_, _, between, blank, apart, padded⟩ := Text.words_eq_pair_iff.mp words
      exact .attack (labelled attacker (by simp)) (labelled attacked (by simp)) blank apart padded
    · cases read
  · intro named
    cases named with
    | argument isLabel padded =>
      have words := Text.words_eq_singleton_iff.mpr ⟨isLabel.isWord, padded⟩
      have found : readLabels? text = some [_] :=
        readLabels?_eq_some_iff.mpr ⟨words, by simpa using isLabel⟩
      rw [readElement?, found]
    | attack first second blank apart padded =>
      have words := Text.words_eq_pair_iff.mpr
        ⟨first.isWord, second.isWord, _, blank, apart, padded⟩
      have found : readLabels? text = some [_, _] :=
        readLabels?_eq_some_iff.mpr ⟨words, by simpa using ⟨first, second⟩⟩
      rw [readElement?, found]

theorem Names.colon_not_mem {text : List Char} {element : Element String}
    (named : Names text element) : ':' ∉ text := by
  have bare : Text.isBlank ':' = false := by decide
  cases named with
  | argument isLabel padded => exact padded.not_mem bare isLabel.colon_not_mem
  | attack first second blank apart padded =>
    refine padded.not_mem bare ?_
    simp [first.colon_not_mem, blank.not_mem bare, second.colon_not_mem]

end Argumentation.Format.Tgf
