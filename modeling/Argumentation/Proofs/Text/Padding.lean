import Argumentation.Text.Blank
import Mathlib.Data.List.Basic
import Mathlib.Data.List.TakeWhile

/-!
# Padding

A text is padded when blanks stand around what it says. Trimming removes the padding and nothing
else, and the words of a text are what its blanks leave apart. Both are said here without the
functions that compute them, so that the formats can be described as what may be written.
-/

namespace Argumentation.Text

/-- A text of blanks. -/
def Blank (text : List Char) : Prop :=
  forall character, character ∈ text -> isBlank character = true

/-- A text that is another one with blanks around it. -/
def Padded (inner text : List Char) : Prop :=
  ∃ before after, Blank before ∧ Blank after ∧ text = before ++ inner ++ after

/-- A text that neither starts nor ends with a blank. -/
structure Solid (text : List Char) : Prop where
  first : forall character, text.head? = some character -> isBlank character = false
  last : forall character, text.getLast? = some character -> isBlank character = false

/-- A text of characters that are not blank, which is not empty. -/
structure IsWord (text : List Char) : Prop where
  filled : text ≠ []
  bare : forall character, character ∈ text -> isBlank character = false

section Blank

variable {text : List Char} {character : Char}

theorem Blank.nil : Blank [] := by
  simp [Blank]

theorem Blank.reverse (blank : Blank text) : Blank text.reverse := fun character member =>
  blank character (List.mem_reverse.mp member)

theorem blank_iff_all : Blank text ↔ text.all isBlank = true := by
  simp [Blank]

instance (text : List Char) : Decidable (Blank text) :=
  decidable_of_iff _ blank_iff_all.symm

/-- A character that is not blank is no part of a padding. -/
theorem Blank.not_mem (blank : Blank text) (bare : isBlank character = false) :
    character ∉ text := fun member =>
  Bool.false_ne_true (bare.symm.trans (blank character member))

end Blank

section Solid

variable {text opening middle closing : List Char}

theorem isWord_iff_all : IsWord text ↔ text ≠ [] ∧ text.all (!isBlank ·) = true := by
  rw [List.all_eq_true]
  exact ⟨fun word => ⟨word.filled, by simpa using word.bare⟩,
    fun found => ⟨found.1, by simpa using found.2⟩⟩

instance (text : List Char) : Decidable (IsWord text) :=
  decidable_of_iff _ isWord_iff_all.symm

theorem Solid.nil : Solid [] :=
  ⟨by simp, by simp⟩

theorem IsWord.solid (word : IsWord text) : Solid text :=
  ⟨fun character found => word.bare character (List.mem_of_head? found),
    fun character found => word.bare character (List.mem_of_getLast? found)⟩

theorem IsWord.not_mem (word : IsWord text) {character : Char}
    (blank : isBlank character = true) : character ∉ text := fun member =>
  Bool.false_ne_true ((word.bare character member).symm.trans blank)

/-- The ends of a text decide whether it is solid. -/
theorem Solid.enclose (left : IsWord opening) (right : IsWord closing) (middle : List Char) :
    Solid (opening ++ middle ++ closing) where
  first character found := by
    refine left.solid.first character ?_
    rwa [List.append_assoc, List.head?_append_of_ne_nil _ left.filled] at found
  last character found := by
    refine right.solid.last character ?_
    rwa [List.getLast?_append_of_ne_nil _ right.filled] at found

theorem Solid.reverse (solid : Solid text) : Solid text.reverse :=
  ⟨fun character found => solid.last character (by rwa [List.head?_reverse] at found),
    fun character found => solid.first character (by rwa [List.getLast?_reverse] at found)⟩

end Solid

section Trim

variable {before after inner text : List Char}

theorem skipBlanks_blank (blank : Blank text) : skipBlanks text = [] :=
  List.dropWhile_eq_nil_iff.mpr blank

theorem skipBlanks_append (blank : Blank before) (text : List Char) :
    skipBlanks (before ++ text) = skipBlanks text :=
  List.dropWhile_append_of_pos blank

/-- Nothing is skipped before a character that is not blank. -/
theorem skipBlanks_cons {character : Char} (bare : isBlank character = false)
    (rest : List Char) : skipBlanks (character :: rest) = character :: rest :=
  List.dropWhile_cons_of_neg (by simp [bare])

theorem Solid.skipBlanks (solid : Solid inner) : Text.skipBlanks inner = inner := by
  cases inner with
  | nil => rfl
  | cons character rest => exact skipBlanks_cons (solid.first character rfl) rest

theorem exists_skipBlanks (text : List Char) :
    ∃ before, Blank before ∧ text = before ++ skipBlanks text :=
  ⟨text.takeWhile isBlank, fun _ member => List.mem_takeWhile_imp member,
    (List.takeWhile_append_dropWhile).symm⟩

theorem skipBlanks_head (text : List Char) (character : Char)
    (found : (skipBlanks text).head? = some character) : isBlank character = false := by
  have head := List.head?_dropWhile_not isBlank text
  rw [show (text.dropWhile isBlank).head? = some character from found] at head
  exact head

theorem dropTrailingBlanks_append (blank : Blank after) (text : List Char) :
    dropTrailingBlanks (text ++ after) = dropTrailingBlanks text := by
  rw [dropTrailingBlanks, List.reverse_append, skipBlanks_append blank.reverse, dropTrailingBlanks]

/-- Nothing is dropped after a character that is not blank. -/
theorem dropTrailingBlanks_concat {character : Char} (bare : isBlank character = false)
    (text : List Char) : dropTrailingBlanks (text ++ [character]) = text ++ [character] := by
  rw [dropTrailingBlanks, List.reverse_append, List.reverse_singleton, List.singleton_append,
    skipBlanks_cons bare, List.reverse_cons, List.reverse_reverse]

theorem Solid.dropTrailingBlanks (solid : Solid inner) :
    Text.dropTrailingBlanks inner = inner := by
  rw [Text.dropTrailingBlanks, solid.reverse.skipBlanks, List.reverse_reverse]

theorem exists_dropTrailingBlanks (text : List Char) :
    ∃ after, Blank after ∧ text = dropTrailingBlanks text ++ after := by
  obtain ⟨before, blank, split⟩ := exists_skipBlanks text.reverse
  refine ⟨before.reverse, blank.reverse, ?_⟩
  rw [dropTrailingBlanks, ← List.reverse_append, ← split, List.reverse_reverse]

/-- Trimming takes away the padding of a solid text. -/
theorem trim_padded (solid : Solid inner) (padded : Padded inner text) : trim text = inner := by
  obtain ⟨before, after, blank, blank', rfl⟩ := padded
  have skipped : skipBlanks (inner ++ after) = inner ++ skipBlanks after ∨
      skipBlanks (inner ++ after) = inner ++ after := by
    cases inner with
    | nil => exact .inl rfl
    | cons character rest => exact .inr (skipBlanks_cons (solid.first character rfl) _)
  rw [trim, List.append_assoc, skipBlanks_append blank]
  rcases skipped with skipped | skipped
  · rw [skipped, skipBlanks_blank blank', List.append_nil, solid.dropTrailingBlanks]
  · rw [skipped, dropTrailingBlanks_append blank', solid.dropTrailingBlanks]

theorem padded_trim (text : List Char) : Padded (trim text) text := by
  obtain ⟨before, blank, split⟩ := exists_skipBlanks text
  obtain ⟨after, blank', rest⟩ := exists_dropTrailingBlanks (skipBlanks text)
  refine ⟨before, after, blank, blank', ?_⟩
  rw [trim, List.append_assoc, ← rest, ← split]

/-- For a solid text, being the trimmed form is being what is padded. -/
theorem Solid.trim_eq_iff (solid : Solid inner) : trim text = inner ↔ Padded inner text :=
  ⟨fun trimmed => trimmed ▸ padded_trim text, trim_padded solid⟩

theorem Padded.refl (text : List Char) : Padded text text :=
  ⟨[], [], .nil, .nil, by simp⟩

/-- A character that is not blank occurs in a padded text only if it occurs inside. -/
theorem Padded.not_mem {character : Char} (padded : Padded inner text)
    (bare : isBlank character = false) (absent : character ∉ inner) : character ∉ text := by
  obtain ⟨before, after, blank, blank', rfl⟩ := padded
  simp [blank.not_mem bare, blank'.not_mem bare, absent]

/-- A text is no longer than what it pads exactly when there are no blanks around it. -/
theorem Padded.length_eq_iff (padded : Padded inner text) :
    inner.length = text.length ↔ text = inner := by
  obtain ⟨before, after, _, _, rfl⟩ := padded
  have inside : inner <:+: before ++ inner ++ after := ⟨before, after, rfl⟩
  exact ⟨fun same => (inside.eq_of_length same).symm, fun same => (congrArg List.length same).symm⟩

end Trim

section Words

variable {before word text rest : List Char}

/-- A text in front of which a word ends: it is empty or starts with a blank. -/
def Breaks (rest : List Char) : Prop :=
  forall character, rest.head? = some character -> isBlank character = true

theorem Blank.breaks (blank : Blank text) : Breaks text := fun character found =>
  blank character (List.mem_of_head? found)

theorem words_blank_cons {character : Char} (blank : isBlank character = true)
    (text : List Char) : words (character :: text) = words text := by
  have cut := List.splitOnP_append_cons (p := isBlank) [] text blank
  rw [List.nil_append, List.splitOnP_nil] at cut
  rw [words, cut, List.filter_append, ← words]
  rfl

theorem words_blank_append (blank : Blank before) (text : List Char) :
    words (before ++ text) = words text := by
  induction before with
  | nil => rfl
  | cons character before ih =>
    rw [List.cons_append, words_blank_cons (blank character List.mem_cons_self)]
    exact ih fun other member => blank other (List.mem_cons_of_mem _ member)

theorem words_blank (blank : Blank text) : words text = [] := by
  rw [← List.append_nil text, words_blank_append blank]
  rfl

theorem words_word (isWord : IsWord word) : words word = [word] := by
  rw [words, List.splitOnP_eq_singleton isWord.bare]
  simp [isWord.filled]

/-- The first word ends at the next blank. -/
theorem words_append (blank : Blank before) (isWord : IsWord word) (breaks : Breaks rest) :
    words (before ++ word ++ rest) = word :: words rest := by
  rw [List.append_assoc, words_blank_append blank]
  cases rest with
  | nil =>
    rw [List.append_nil, words_word isWord]
    rfl
  | cons character others =>
    have space := breaks character rfl
    rw [words_blank_cons space, words, List.splitOnP_append_cons word others space,
      List.filter_append, ← words, ← words, words_word isWord, List.singleton_append]

/-- A text with a character that is not blank starts, up to blanks, with a word. -/
theorem exists_word (filled : ¬ Blank text) :
    ∃ before word rest, Blank before ∧ IsWord word ∧ Breaks rest ∧
      text = before ++ word ++ rest := by
  obtain ⟨before, blank, split⟩ := exists_skipBlanks text
  cases found : skipBlanks text with
  | nil =>
    rw [found, List.append_nil] at split
    exact absurd (split ▸ blank) filled
  | cons first others =>
    have bare := skipBlanks_head text first (by rw [found]; rfl)
    refine ⟨before, (first :: others).takeWhile (!isBlank ·),
      (first :: others).dropWhile (!isBlank ·), blank, ⟨by simp [bare], fun character member => ?_⟩, fun character starts => ?_, ?_⟩
    · simpa using List.mem_takeWhile_imp member
    · have head := List.head?_dropWhile_not (!isBlank ·) (first :: others)
      rw [starts] at head
      simpa using head
    · rw [List.append_assoc, List.takeWhile_append_dropWhile, ← found, ← split]

theorem words_eq_nil_iff : words text = [] ↔ Blank text := by
  refine ⟨fun none => ?_, words_blank⟩
  by_contra filled
  obtain ⟨before, word, rest, blank, isWord, breaks, rfl⟩ := exists_word filled
  rw [words_append blank isWord breaks] at none
  cases none

/-- The first word of a text, and the words of what follows it. -/
theorem words_eq_cons_iff {others : List (List Char)} :
    words text = word :: others ↔ IsWord word ∧ ∃ before rest, Blank before ∧ Breaks rest ∧
      text = before ++ word ++ rest ∧ words rest = others := by
  constructor
  · intro listed
    have filled : ¬ Blank text := fun blank => by
      rw [words_blank blank] at listed
      cases listed
    obtain ⟨before, first, rest, blank, isWord, breaks, rfl⟩ := exists_word filled
    cases (words_append blank isWord breaks).symm.trans listed
    exact ⟨isWord, before, rest, blank, breaks, rfl, rfl⟩
  · rintro ⟨isWord, before, rest, blank, breaks, rfl, rfl⟩
    exact words_append blank isWord breaks

theorem words_eq_singleton_iff : words text = [word] ↔ IsWord word ∧ Padded word text := by
  rw [words_eq_cons_iff]
  constructor
  · rintro ⟨isWord, before, rest, blank, _, rfl, none⟩
    exact ⟨isWord, before, rest, blank, words_eq_nil_iff.mp none, rfl⟩
  · rintro ⟨isWord, before, after, blank, blank', rfl⟩
    exact ⟨isWord, before, after, blank, blank'.breaks, rfl, words_blank blank'⟩

/-- Two words have blanks between them. -/
theorem words_eq_pair_iff {second : List Char} :
    words text = [word, second] ↔ IsWord word ∧ IsWord second ∧
      ∃ between, Blank between ∧ between ≠ [] ∧ Padded (word ++ between ++ second) text := by
  rw [words_eq_cons_iff]
  constructor
  · rintro ⟨isWord, before, rest, blank, breaks, rfl, one⟩
    obtain ⟨isWord', between, after, blank', blank'', rfl⟩ := words_eq_singleton_iff.mp one
    refine ⟨isWord, isWord', between, blank', ?_, before, after, blank, blank'', by simp⟩
    -- without a blank between them, the two would be one word
    rintro rfl
    obtain ⟨character, starts⟩ : ∃ character, second.head? = some character :=
      Option.isSome_iff_exists.mp (List.isSome_head?.mpr isWord'.filled)
    have space := breaks character (by
      rw [List.nil_append, List.head?_append_of_ne_nil _ isWord'.filled, starts])
    exact Bool.false_ne_true ((isWord'.solid.first character starts).symm.trans space)
  · rintro ⟨isWord, isWord', between, blank', filled, before, after, blank, blank'', rfl⟩
    refine ⟨isWord, before, between ++ second ++ after, blank, fun character starts => ?_, by simp,
      words_eq_singleton_iff.mpr ⟨isWord', between, after, blank', blank'', rfl⟩⟩
    rw [List.append_assoc, List.head?_append_of_ne_nil _ filled] at starts
    exact blank' character (List.mem_of_head? starts)

end Words

end Argumentation.Text
