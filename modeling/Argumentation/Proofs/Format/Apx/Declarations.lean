import Argumentation.Format.Apx
import Argumentation.Proofs.Format.Items

/-!
# Declarations of the Aspartix format

A declaration names an argument as `arg(a).` or an attack as `att(a,b).`, with blanks around the
declaration and around its names. Names have neither blanks nor punctuation, so the parentheses and
the comma are found where they were written, and each name is read as it was spelled. Any character
but a line feed may stand in the place of the period.
-/

namespace Argumentation.Format.Apx

open Text (Blank Padded)

/-- A name that an instance may declare: an underscore or an ASCII letter, followed by underscores,
ASCII letters and decimal digits of any script. -/
def IsName (name : String) : Prop :=
  ∃ first rest, name.toList = first :: rest ∧ (first = '_' ∨ first.isAlpha = true) ∧
    forall character, character ∈ rest ->
      character = '_' ∨ character.isAlpha = true ∨ Text.isDigit character = true

/-- A text that spells a name, which is padded when the text has blanks around it. -/
structure Spells (written : WrittenName) (text : List Char) : Prop where
  isName : IsName written.name
  around : Padded written.name.toList text
  flagged : written.padded = true ↔ text ≠ written.name.toList

/-- The lines that declare something. -/
inductive Declares : List Char -> Declaration -> Prop
  | argument {written : WrittenName} {inner line : List Char} (spells : Spells written inner)
      (around : Padded (['a', 'r', 'g', '('] ++ inner ++ [')', '.']) line) :
      Declares line (.argument written)
  | attack {attacker attacked : WrittenName} {left right line : List Char}
      (first : Spells attacker left) (second : Spells attacked right)
      (around : Padded (['a', 't', 't', '('] ++ (left ++ [','] ++ right) ++ [')', '.']) line) :
      Declares line (.attack attacker attacked)

/-- The lines that would declare something if a period stood in the place of a character, which is
the one after the closing parenthesis. -/
inductive Ended (terminator : Char) : List Char -> Declaration -> Prop
  | argument {written : WrittenName} {inner line : List Char} (spells : Spells written inner)
      (around : Padded (['a', 'r', 'g', '('] ++ inner ++ [')', terminator]) line) :
      Ended terminator line (.argument written)
  | attack {attacker attacked : WrittenName} {left right line : List Char}
      (first : Spells attacker left) (second : Spells attacked right)
      (around :
        Padded (['a', 't', 't', '('] ++ (left ++ [','] ++ right) ++ [')', terminator]) line) :
      Ended terminator line (.attack attacker attacked)

theorem ended_period_iff {line : List Char} {declaration : Declaration} :
    Ended '.' line declaration ↔ Declares line declaration := by
  constructor
  · rintro (⟨spells, around⟩ | ⟨first, second, around⟩)
    · exact .argument spells around
    · exact .attack first second around
  · rintro (⟨spells, around⟩ | ⟨first, second, around⟩)
    · exact .argument spells around
    · exact .attack first second around

section Names

variable {written : WrittenName} {text : List Char}

theorem isNameCharacter_iff {character : Char} : isNameCharacter character = true ↔
    character = '_' ∨ character.isAlpha = true ∨ Text.isDigit character = true := by
  simp [isNameCharacter, isNameStart, or_assoc]

theorem IsName.isValid {name : String} (isName : IsName name) : Label.isValid name = true := by
  obtain ⟨first, rest, split, start, others⟩ := isName
  rw [← String.ofList_toList (s := name), split]
  refine Label.isValid_ofList (List.cons_ne_nil _ _) fun character member =>
    isPlain_of_isNameCharacter (isNameCharacter_iff.mpr ?_)
  rcases List.mem_cons.mp member with rfl | inside
  · exact start.imp_right .inl
  · exact others character inside

/-- A text is read as the name that it spells. -/
theorem readName?_eq_some_iff : readName? text = some written ↔ Spells written text := by
  constructor
  · intro read
    unfold readName? at read
    split at read
    · rename_i first rest trimmed
      have padded := Text.padded_trim text
      rw [trimmed] at padded
      rw [Option.ite_none_right_eq_some] at read
      obtain ⟨allowed, same⟩ := read
      cases same
      simp only [isNameStart, Bool.and_eq_true, Bool.or_eq_true, decide_eq_true_eq,
        List.all_eq_true, isNameCharacter_iff] at allowed
      refine ⟨⟨first, rest, String.toList_ofList, allowed⟩, ?_, ?_⟩
      · rwa [String.toList_ofList]
      · rw [String.toList_ofList, decide_eq_true_eq, ← List.length_cons]
        exact not_congr padded.length_eq_iff
    · cases read
  · rintro ⟨isName, padded, flagged⟩
    have trimmed := (Label.isWord_of_isValid isName.isValid).solid.trim_eq_iff.mpr padded
    obtain ⟨first, rest, split, start, others⟩ := isName
    have allowed : (isNameStart first && rest.all isNameCharacter) = true := by
      simpa only [isNameStart, Bool.and_eq_true, Bool.or_eq_true, decide_eq_true_eq,
        List.all_eq_true, isNameCharacter_iff] using ⟨start, others⟩
    have name : String.ofList (first :: rest) = written.name := by
      rw [← split, String.ofList_toList]
    rw [split] at trimmed padded flagged
    have flag : decide (rest.length + 1 ≠ text.length) = written.padded := by
      rw [Bool.eq_iff_iff, decide_eq_true_eq, flagged, ← List.length_cons (a := first)]
      exact not_congr padded.length_eq_iff
    rw [readName?, trimmed]
    simp only [allowed, if_true, name, flag]

theorem Spells.not_mem (spells : Spells written text) {character : Char}
    (separates : character ∈ Label.reserved) : character ∉ text :=
  Label.not_mem_padded spells.isName.isValid spells.around separates

theorem Spells.filled (spells : Spells written text) : text ≠ [] := by
  obtain ⟨_, _, _, _, rfl⟩ := spells.around
  simp [(Label.isWord_of_isValid spells.isName.isValid).filled]

end Names

section Declarations

variable {line rest : List Char} {declaration : Declaration} {terminator : Char}

/-- A text is cut at the first of the characters that end a part of it. -/
theorem cut_append {stop : Char} {part : List Char} (absent : stop ∉ part) (rest : List Char) :
    (part ++ stop :: rest).takeWhile (· ≠ stop) = part ∧
      (part ++ stop :: rest).dropWhile (· ≠ stop) = stop :: rest := by
  have before : forall character, character ∈ part -> decide (character ≠ stop) = true := by
    intro character member
    rw [decide_eq_true_eq]
    rintro rfl
    exact absent member
  rw [List.takeWhile_append_of_pos before, List.dropWhile_append_of_pos before]
  simp

/-- A text that goes on after a cut has the character that ends the part there. -/
theorem eq_cut {stop : Char} (further : (rest.dropWhile (· ≠ stop)).drop 1 ≠ []) :
    rest = rest.takeWhile (· ≠ stop) ++ stop :: (rest.dropWhile (· ≠ stop)).drop 1 := by
  cases found : rest.dropWhile (· ≠ stop) with
  | nil => exact absurd (by rw [found]; rfl) further
  | cons first others =>
    have head := List.head?_dropWhile_not (· ≠ stop) rest
    rw [found] at head
    obtain rfl : first = stop := by simpa using head
    rw [List.drop_succ_cons, List.drop_zero, ← found, List.takeWhile_append_dropWhile]

theorem endsDeclaration_iff : endsDeclaration rest = true ↔
    ∃ terminator after, terminator ≠ '\n' ∧ Blank after ∧ rest = ')' :: terminator :: after := by
  constructor
  · intro ends
    unfold endsDeclaration at ends
    split at ends
    · rename_i terminator after
      rw [Bool.and_eq_true, bne_iff_ne] at ends
      exact ⟨terminator, after, ends.1, Text.blank_iff_all.mpr ends.2, rfl⟩
    · cases ends
  · rintro ⟨terminator, after, unbroken, blank, rfl⟩
    simpa [endsDeclaration, unbroken] using Text.blank_iff_all.mp blank

/-- What follows the opening parenthesis of an argument is read when it spells a name up to the
closing parenthesis. -/
theorem readArgument?_eq_some_iff : readArgument? line rest = some (.ok declaration) ↔
    ∃ written inner terminator after, Spells written inner ∧ terminator ≠ '\n' ∧ Blank after ∧
      rest = inner ++ ')' :: terminator :: after ∧ declaration = .argument written := by
  constructor
  · intro read
    simp only [readArgument?] at read
    split at read
    · cases read
    · rename_i shaped
      rw [Bool.not_eq_true, Bool.or_eq_false_iff, Bool.not_eq_false'] at shaped
      obtain ⟨terminator, after, unbroken, blank, closed⟩ := endsDeclaration_iff.mp shaped.2
      split at read
      · rename_i written named
        cases read
        refine ⟨written, _, terminator, after, readName?_eq_some_iff.mp named, unbroken, blank, ?_,
          rfl⟩
        rw [← closed, List.takeWhile_append_dropWhile]
      · cases read
  · rintro ⟨written, inner, terminator, after, spells, unbroken, blank, rfl, rfl⟩
    have absent := spells.not_mem (show ')' ∈ Label.reserved by decide)
    have ends := endsDeclaration_iff.mpr ⟨terminator, after, unbroken, blank, rfl⟩
    simp only [readArgument?, cut_append absent, ends, readName?_eq_some_iff.mpr spells,
      List.isEmpty_eq_false_iff.mpr spells.filled]
    rfl

/-- What follows the opening parenthesis of an attack is read when it spells a name up to the comma
and another one up to the closing parenthesis. -/
theorem readAttack?_eq_some_iff : readAttack? line rest = some (.ok declaration) ↔
    ∃ attacker attacked left right terminator after, Spells attacker left ∧
      Spells attacked right ∧ terminator ≠ '\n' ∧ Blank after ∧
      rest = left ++ ',' :: (right ++ ')' :: terminator :: after) ∧
      declaration = .attack attacker attacked := by
  constructor
  · intro read
    simp only [readAttack?] at read
    split at read
    · cases read
    · rename_i shaped
      rw [Bool.not_eq_true, Bool.or_eq_false_iff, Bool.or_eq_false_iff, Bool.not_eq_false']
        at shaped
      obtain ⟨terminator, after, unbroken, blank, closed⟩ := endsDeclaration_iff.mp shaped.2
      split at read
      · rename_i attacker attacked first second
        cases read
        refine ⟨attacker, attacked, _, _, terminator, after, readName?_eq_some_iff.mp first,
          readName?_eq_some_iff.mp second, unbroken, blank, ?_, rfl⟩
        have further : (rest.dropWhile (· ≠ ',')).drop 1 ≠ [] := by
          intro none
          rw [none] at closed
          cases closed
        rw [← closed, List.takeWhile_append_dropWhile]
        exact eq_cut further
      · cases read
  · rintro ⟨attacker, attacked, left, right, terminator, after, first, second, unbroken, blank, rfl,
      rfl⟩
    have comma := first.not_mem (show ',' ∈ Label.reserved by decide)
    have closing := second.not_mem (show ')' ∈ Label.reserved by decide)
    have ends := endsDeclaration_iff.mpr ⟨terminator, after, unbroken, blank, rfl⟩
    simp only [readAttack?, cut_append comma, List.drop_succ_cons, List.drop_zero,
      cut_append closing, ends, readName?_eq_some_iff.mpr first,
      readName?_eq_some_iff.mpr second, List.isEmpty_eq_false_iff.mpr first.filled,
      List.isEmpty_eq_false_iff.mpr second.filled]
    rfl

/-- Without the blanks before it, a declaration starts with its opening word and ends with its
closing parenthesis, a character and blanks. -/
theorem skipBlanks_eq_iff {opening middle : List Char} (isWord : Text.IsWord opening) :
    Padded (opening ++ middle ++ [')', terminator]) line ↔ ∃ after, Blank after ∧
      Text.skipBlanks line = opening ++ (middle ++ ')' :: terminator :: after) := by
  constructor
  · rintro ⟨before, after, blank, blank', rfl⟩
    refine ⟨after, blank', ?_⟩
    rw [List.append_assoc, Text.skipBlanks_append blank]
    obtain ⟨first, rest, rfl⟩ := List.exists_cons_of_ne_nil isWord.filled
    simpa using Text.skipBlanks_cons (isWord.bare first List.mem_cons_self) _
  · rintro ⟨after, blank', text⟩
    obtain ⟨before, blank, split⟩ := Text.exists_skipBlanks line
    refine ⟨before, after, blank, blank', ?_⟩
    rw [split, text]
    simp

/-- A line is read as a declaration when it is one, whatever character but a line feed ends it. -/
theorem readDeclaration_eq_ok_iff : readDeclaration line = .ok declaration ↔
    ∃ terminator, terminator ≠ '\n' ∧ Ended terminator line declaration := by
  have opened (opening rest : List Char) : opening.isPrefixOf? (opening ++ rest) = some rest :=
    List.isPrefixOf?_eq_some_iff_append_eq.mpr rfl
  constructor
  · intro read
    simp only [readDeclaration] at read
    split at read
    · rename_i result found
      subst read
      simp only [Option.orElse_eq_orElse, Option.orElse_eq_or, Option.or_eq_some_iff,
        Option.bind_eq_some_iff, List.isPrefixOf?_eq_some_iff_append_eq] at found
      rcases found with ⟨rest, text, named⟩ | ⟨_, rest, text, named⟩
      · obtain ⟨written, inner, terminator, after, spells, unbroken, blank, rfl, rfl⟩ :=
          readArgument?_eq_some_iff.mp named
        refine ⟨terminator, unbroken, .argument spells ?_⟩
        exact (skipBlanks_eq_iff (by decide)).mpr ⟨after, blank, text.symm⟩
      · obtain ⟨attacker, attacked, left, right, terminator, after, first, second, unbroken, blank,
          rfl, rfl⟩ := readAttack?_eq_some_iff.mp named
        refine ⟨terminator, unbroken, .attack first second ?_⟩
        exact (skipBlanks_eq_iff (by decide)).mpr ⟨after, blank, by simp [← text]⟩
    · cases read
  · rintro ⟨terminator, unbroken, ended⟩
    cases ended with
    | @argument written inner _ spells around =>
      obtain ⟨after, blank, text⟩ := (skipBlanks_eq_iff (by decide)).mp around
      have named : readArgument? line (inner ++ ')' :: terminator :: after) =
          some (.ok (.argument written)) :=
        readArgument?_eq_some_iff.mpr
          ⟨written, inner, terminator, after, spells, unbroken, blank, rfl, rfl⟩
      rw [readDeclaration, text]
      simp only [opened, Option.bind_some, named]
      rfl
    | @attack attacker attacked left right _ first second around =>
      obtain ⟨after, blank, text⟩ := (skipBlanks_eq_iff (by decide)).mp around
      have other (rest : List Char) :
          ['a', 'r', 'g', '('].isPrefixOf? (['a', 't', 't', '('] ++ rest) = none := rfl
      have regrouped : left ++ [','] ++ right ++ ')' :: terminator :: after =
          left ++ ',' :: (right ++ ')' :: terminator :: after) := by
        simp
      have named : readAttack? line (left ++ ',' :: (right ++ ')' :: terminator :: after)) =
          some (.ok (.attack attacker attacked)) :=
        readAttack?_eq_some_iff.mpr ⟨attacker, attacked, left, right, terminator, after, first,
          second, unbroken, blank, rfl, rfl⟩
      rw [readDeclaration, text, regrouped]
      simp only [opened, other, Option.bind_none, Option.bind_some, named]
      rfl

/-- A declaration is read as what it declares. -/
theorem Declares.readDeclaration_eq (declares : Declares line declaration) :
    readDeclaration line = .ok declaration :=
  readDeclaration_eq_ok_iff.mpr ⟨'.', by decide, ended_period_iff.mpr declares⟩

theorem not_blank_of_readDeclaration (read : readDeclaration line = .ok declaration) :
    ¬ Blank line := by
  intro blank
  rw [readDeclaration, Text.skipBlanks_blank blank] at read
  cases read

theorem Declares.not_blank (declares : Declares line declaration) : ¬ Blank line :=
  not_blank_of_readDeclaration declares.readDeclaration_eq

end Declarations

end Argumentation.Format.Apx
