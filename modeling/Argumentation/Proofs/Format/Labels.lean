import Argumentation.Format.Basic
import Argumentation.Proofs.Framework.Construction
import Argumentation.Proofs.Solver.Scratch

/-!
# Labels that are read

The formats have classes of characters of their own for the names of an instance and for the labels
of an update. All of them consist of plain characters, and no empty text is a label, so whatever is
read is valid.
-/

namespace Argumentation

/-- The element that a patch is about. -/
def Patch.element {α : Type} : Patch α -> Element α
  | .enable element | .disable element => element

namespace Text

/-- Ranges that lie apart have no character in common. -/
theorem inRanges_eq_false_of_apart {first second : List (Nat × Nat)}
    (apart : forall left, left ∈ first -> forall right, right ∈ second ->
      left.2 < right.1 ∨ right.2 < left.1)
    {character : Char} (inside : inRanges first character = true) :
    inRanges second character = false := by
  simp only [inRanges, List.any_eq_true, Bool.and_eq_true, decide_eq_true_eq] at inside
  obtain ⟨left, member, bounds⟩ := inside
  simp only [inRanges, List.any_eq_false, Bool.and_eq_true, decide_eq_true_eq, not_and, not_le]
  intro right other
  have := apart left member right other
  omega

/-- No decimal digit is blank. -/
theorem isBlank_of_isDigit {character : Char} (digit : isDigit character = true) :
    isBlank character = false := by
  have apart : forall left, left ∈ digitRanges -> forall right, right ∈ blankRanges ->
      left.2 < right.1 ∨ right.2 < left.1 := by
    decide
  exact inRanges_eq_false_of_apart apart digit

theorem toNat_lt_of_isAlphanum {character : Char} (ascii : character.isAlphanum = true) :
    character.toNat < 128 := by
  change (decide ('A' <= character ∧ character <= 'Z') ||
    (decide ('a' <= character) && decide (character <= 'z')) ||
    (decide ('0' <= character) && decide (character <= '9'))) = true at ascii
  simp only [Bool.or_eq_true, Bool.and_eq_true, decide_eq_true_eq] at ascii
  have bounded : character <= 'z' := by
    rcases ascii with (⟨_, upper⟩ | ⟨_, lower⟩) | ⟨_, digit⟩
    · exact Char.le_trans upper (by decide)
    · exact lower
    · exact Char.le_trans digit (by decide)
  have code : character.toNat <= 122 := bounded
  omega

end Text

namespace Label

/-- The characters of labels are neither blank nor reserved. -/
theorem isPlain_of_isLabelCharacter {character : Char}
    (allowed : Format.Tgf.isLabelCharacter character = true) : isPlain character = true := by
  have ascii : character.toNat < 128 := by
    simp only [Format.Tgf.isLabelCharacter, Bool.or_eq_true, decide_eq_true_eq] at allowed
    rcases allowed with (rfl | rfl) | alphanumeric
    · decide
    · decide
    · exact Text.toNat_lt_of_isAlphanum alphanumeric
  have all : forall code, code < 128 ->
      Format.Tgf.isLabelCharacter (Char.ofNat code) = true -> isPlain (Char.ofNat code) = true := by
    decide +kernel
  rw [← Char.ofNat_toNat character] at allowed ⊢
  exact all _ ascii allowed

/-- No decimal digit is blank or reserved. -/
theorem isPlain_of_isDigit {character : Char} (digit : Text.isDigit character = true) :
    isPlain character = true := by
  have unreserved : character ∉ reserved := by
    intro member
    have none : reserved.any Text.isDigit = false := by decide
    exact List.any_eq_false.mp none character member digit
  simp [isPlain, Text.isBlank_of_isDigit digit, unreserved]

/-- A text of plain characters that is not empty is a valid label. -/
theorem isValid_ofList {characters : List Char} (filled : characters ≠ [])
    (plain : forall character, character ∈ characters -> isPlain character = true) :
    isValid (String.ofList characters) = true := by
  have same : (text (String.ofList characters)).toList = characters := String.toList_ofList
  simp only [isValid, same, Bool.and_eq_true, Bool.not_eq_true', List.isEmpty_eq_false_iff,
    List.all_eq_true]
  exact ⟨filled, plain⟩

end Label

namespace Format

/-- The characters of names are neither blank nor reserved. -/
theorem Apx.isPlain_of_isNameCharacter {character : Char}
    (allowed : isNameCharacter character = true) : Label.isPlain character = true := by
  simp only [isNameCharacter, isNameStart, Bool.or_eq_true, decide_eq_true_eq] at allowed
  rcases allowed with (rfl | letter) | digit
  · decide
  · apply Label.isPlain_of_isLabelCharacter
    simp [Tgf.isLabelCharacter, Char.isAlphanum, letter]
  · exact Label.isPlain_of_isDigit digit

theorem Apx.isPlain_of_isUpdateCharacter {character : Char}
    (allowed : isUpdateCharacter character = true) : Label.isPlain character = true := by
  apply Label.isPlain_of_isLabelCharacter
  simp only [isUpdateCharacter, Bool.or_eq_true, decide_eq_true_eq] at allowed
  rcases allowed with rfl | alphanumeric
  · decide
  · simp [Tgf.isLabelCharacter, alphanumeric]

/-- The labels of an update are valid. -/
theorem Apx.isValid_of_readLabel {text : List Char} {label : String}
    (read : readLabel? text = some label) : Label.isValid label = true := by
  simp only [readLabel?, Option.ite_none_right_eq_some, Bool.and_eq_true, Bool.not_eq_true',
    List.isEmpty_eq_false_iff, List.all_eq_true, Option.some.injEq] at read
  obtain ⟨⟨filled, allowed⟩, rfl⟩ := read
  exact Label.isValid_ofList filled fun character member =>
    isPlain_of_isUpdateCharacter (allowed character member)

theorem Apx.isValid_of_readElement {item : List Char} {element : Element String}
    (read : readElement? item = some element) : FromScratch.IsValid element := by
  simp only [readElement?, Option.orElse_eq_orElse, Option.orElse_eq_or, Option.or_eq_some_iff,
    Option.bind_eq_bind, Option.bind_eq_some_iff, Option.some.injEq] at read
  rcases read with ⟨inner, _, label, found, rfl⟩ | ⟨_, inner, _, chosen⟩
  · exact isValid_of_readLabel found
  · split at chosen
    · simp only [Option.bind_eq_some_iff, Option.some.injEq] at chosen
      obtain ⟨attacker, first, attacked, second, rfl⟩ := chosen
      exact ⟨isValid_of_readLabel first, isValid_of_readLabel second⟩
    · cases chosen

/-- The words of labels and blanks are valid labels. -/
theorem Tgf.isValid_of_readLabels {text : List Char} {labels : List String}
    (read : readLabels? text = some labels) :
    forall label, label ∈ labels -> Label.isValid label = true := by
  simp only [readLabels?, Option.ite_none_right_eq_some, List.all_eq_true,
    Option.some.injEq] at read
  obtain ⟨allowed, rfl⟩ := read
  intro label member
  obtain ⟨word, found, rfl⟩ := List.mem_map.mp member
  have filled : word ≠ [] := by
    have kept := (List.mem_filter.mp found).2
    simpa using kept
  exact Label.isValid_ofList filled fun character inside =>
    Label.isPlain_of_isLabelCharacter (allowed word found character inside)

theorem Tgf.isValid_of_readElement {text : List Char} {element : Element String}
    (read : readElement? text = some element) : FromScratch.IsValid element := by
  unfold readElement? at read
  split at read
  · rename_i label found
    cases read
    exact isValid_of_readLabels found label List.mem_cons_self
  · rename_i attacker attacked found
    cases read
    exact ⟨isValid_of_readLabels found _ (by simp), isValid_of_readLabels found _ (by simp)⟩
  · cases read

/-- Items are read one after the other, so every patch comes from one of them. -/
theorem exists_of_mem_readItems {element? : List Char -> Option (Element String)} {enables : Bool}
    {items : List (List Char)} {patches : List (Patch String)}
    (read : readItems element? enables items = .ok patches) :
    forall patch, patch ∈ patches -> ∃ item element, element? item = some element ∧
      patch = Patch.ofSign enables element := by
  induction items generalizing patches with
  | nil =>
    cases read
    simp
  | cons item rest ih =>
    rw [readItems, List.mapM_cons] at read
    obtain ⟨first, named, read⟩ := bind_eq_ok.mp read
    obtain ⟨others, later, listed⟩ := bind_eq_ok.mp read
    cases listed
    intro patch member
    rcases List.mem_cons.mp member with rfl | older
    · split at named
      · rename_i element found
        cases named
        exact ⟨item, element, found, rfl⟩
      · cases named
    · exact ih later patch older

end Format

@[simp]
theorem Patch.element_ofSign {α : Type} (enables : Bool) (element : Element α) :
    (ofSign enables element).element = element := by
  cases enables <;> rfl

/-- The labels of the patches of an update are valid. -/
theorem InstanceFormat.isValid_of_readUpdate {format : InstanceFormat} {line : String}
    {patches : List (Patch String)} (read : format.readUpdate line = .ok patches) :
    forall patch, patch ∈ patches -> FromScratch.IsValid patch.element := by
  have items : ∃ element? enables items,
      Format.readItems element? enables items = .ok patches ∧
        forall {item element}, element? item = some element -> FromScratch.IsValid element := by
    cases format with
    | apx =>
      have read := mapError_eq_ok.mp read
      split at read
      · cases read
      · exact ⟨_, _, _, read, Format.Apx.isValid_of_readElement⟩
    | tgf =>
      have read := mapError_eq_ok.mp read
      split at read
      · split at read
        · cases read
        · exact ⟨_, _, _, read, Format.Tgf.isValid_of_readElement⟩
      · cases read
  obtain ⟨element?, enables, items, read, valid⟩ := items
  intro patch member
  obtain ⟨item, element, named, rfl⟩ := Format.exists_of_mem_readItems read patch member
  rw [Patch.element_ofSign]
  exact valid named

end Argumentation
