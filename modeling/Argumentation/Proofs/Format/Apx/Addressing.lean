import Argumentation.Proofs.Format.Apx.Terminators
import Argumentation.Proofs.Format.Apx.Updates

/-!
# Updates of what an instance declares

The names of an instance may have decimal digits of any script, but the labels of an update are of
ASCII characters only. So an update can be about an element of an instance exactly when the names of
the element have no other characters.
-/

namespace Argumentation.Format.Apx

/-- A label without characters beyond ASCII. -/
def IsAscii (label : String) : Prop :=
  forall character, character ∈ label.toList -> character.toNat < 128

theorem isAscii_iff_all {label : String} :
    IsAscii label ↔ label.toList.all (fun character => character.toNat < 128) = true := by
  simp [IsAscii]

instance (label : String) : Decidable (IsAscii label) :=
  decidable_of_iff _ isAscii_iff_all.symm

section Names

variable {name : String} {element : Element String}

/-- The decimal digits of ASCII are those that a label may have. -/
theorem isAlphanum_of_isDigit {character : Char} (digit : Text.isDigit character = true)
    (ascii : character.toNat < 128) : character.isAlphanum = true := by
  have all : forall code, code < 128 -> Text.isDigit (Char.ofNat code) = true ->
      (Char.ofNat code).isAlphanum = true := by
    decide +kernel
  rw [← Char.ofNat_toNat character] at digit ⊢
  exact all _ ascii digit

/-- A name is a label of an update when it is of ASCII characters. -/
theorem IsName.isLabel_iff (isName : IsName name) : IsLabel name ↔ IsAscii name := by
  constructor
  · intro isLabel character member
    rcases isLabel.characters character member with rfl | alphanumeric
    · decide
    · exact Text.toNat_lt_of_isAlphanum alphanumeric
  · intro ascii
    obtain ⟨first, rest, split, start, others⟩ := isName
    refine ⟨?_, fun character member => ?_⟩
    · rintro rfl
      cases split
    · have code := ascii character member
      rw [split] at member
      rcases List.mem_cons.mp member with rfl | inside
      · exact start.imp_right fun letter => by simp [Char.isAlphanum, letter]
      · rcases others character inside with underscore | letter | digit
        · exact .inl underscore
        · exact .inr (by simp [Char.isAlphanum, letter])
        · exact .inr (isAlphanum_of_isDigit digit code)

theorem over_isLabel (named : element.Over IsName) (ascii : element.Over IsAscii) :
    element.Over IsLabel := by
  cases element with
  | argument => exact named.isLabel_iff.mpr ascii
  | attack => exact ⟨named.1.isLabel_iff.mpr ascii.1, named.2.isLabel_iff.mpr ascii.2⟩

/-- A name with other characters is not read as a label. -/
theorem IsName.readLabel?_eq_none (isName : IsName name) (foreign : ¬ IsAscii name) :
    readLabel? name.toList = none := by
  rw [Option.eq_none_iff_forall_ne_some]
  intro label read
  obtain ⟨isLabel, padded⟩ := readLabel?_eq_some_iff.mp read
  have word := Label.isWord_of_isValid isName.isValid
  have same := (isLabel.isWord.solid.trim_eq_iff.mpr padded).symm.trans
    (word.solid.trim_eq_iff.mpr (.refl _))
  obtain rfl := String.toList_inj.mp same
  exact foreign (isName.isLabel_iff.mp isLabel)

theorem solid_text (element : Element String) : Text.Solid element.text.toList := by
  cases element with
  | argument label =>
    rw [toList_text_argument]
    exact .enclose (by decide) (by decide) _
  | attack attacker attacked =>
    rw [toList_text_attack]
    exact .enclose (by decide) (by decide) _

/-- No element is read from the written form of one that has other characters in its names. -/
theorem readElement?_text_eq_none (named : element.Over IsName)
    (foreign : ¬ element.Over IsAscii) : readElement? element.text.toList = none := by
  have trimmed := (solid_text element).trim_eq_iff.mpr (.refl _)
  rw [readElement?_eq_or, trimmed, Option.or_eq_none_iff]
  cases element with
  | argument label =>
    have inner := enclosed?_eq_some_iff.mpr (toList_text_argument label)
    constructor
    · rw [inner, Option.bind_some, namedArgument?, named.readLabel?_eq_none foreign]
      rfl
    · rw [toList_text_argument]
      rfl
  | attack attacker attacked =>
    have inner := enclosed?_eq_some_iff.mpr (toList_text_attack attacker attacked)
    constructor
    · rw [toList_text_attack]
      rfl
    · have plain {name : String} (isName : IsName name) : ',' ∉ name.toList :=
        Label.not_mem_of_isValid isName.isValid (by decide)
      rw [inner, Option.bind_some, namedAttack?, splitOn_pair (plain named.1) (plain named.2)]
      rcases not_and_or.mp foreign with first | second
      · simp only [named.1.readLabel?_eq_none first]
        rfl
      · simp only [named.2.readLabel?_eq_none second]
        cases readLabel? attacker.toList <;> rfl

/-- Characters that no name has are in a written form only when they are put around the names. -/
theorem not_mem_text {character : Char} (named : element.Over IsName)
    (other : character ∉ ['a', 'r', 'g', 't', '(', ',', ')'])
    (absent : forall {name : String}, IsName name -> character ∉ name.toList) :
    character ∉ element.text.toList := by
  simp only [List.mem_cons, List.not_mem_nil, or_false, not_or] at other
  cases element with
  | argument label => simp [toList_text_argument, other, absent named]
  | attack attacker attacked =>
    simp [toList_text_attack, other, absent named.1, absent named.2]

end Names

/-- A line about one element has a single item. -/
theorem readUpdate_text {element : Element String} (named : element.Over IsName) (enables : Bool) :
    let line := (Patch.ofSign enables element).text ++ "."
    readUpdate line = during (.readingUpdate line)
      (readItems readElement? enables [element.text.toList]) := by
  intro line
  have characters : line.toList = [sign enables] ++ element.text.toList ++ ['.'] := by
    cases enables <;> simp [line, Patch.ofSign, Patch.text, sign]
  have unbroken : '\n' ∉ element.text.toList := not_mem_text named (by decide) fun isName =>
    (Label.isWord_of_isValid isName.isValid).not_mem (by decide)
  have single : element.text.toList.splitOn ':' = [element.text.toList] := by
    have absent : ':' ∉ element.text.toList := not_mem_text named (by decide) fun isName =>
      Label.not_mem_of_isValid isName.isValid (by decide)
    have parts := List.splitOn_intercalate ':' (List.forall_mem_singleton.mpr absent)
      (List.cons_ne_nil _ _)
    rwa [List.intercalate_singleton] at parts
  have split : splitUpdate? line.toList = some (enables, element.text.toList) :=
    splitUpdate?_eq_some_iff.mpr ⟨[], [], .nil, .nil, unbroken, characters⟩
  have trimmed : Text.trim line.toList = line.toList := by
    rw [Text.Solid.trim_eq_iff]
    · exact .refl _
    · rw [characters]
      exact .enclose ⟨List.cons_ne_nil _ _, List.forall_mem_singleton.mpr (isBlank_sign enables)⟩
        (by decide) _
  simp only [readUpdate, split, single, updateActivity, trimmed, String.ofList_toList]

theorem Reads.isName {line : List Char} {item : Option Declaration} {name : String}
    (reads : Reads line item) (named : named? item = some name) : IsName name := by
  cases reads with
  | blank => cases named
  | declaration _ ended =>
    cases ended with
    | argument spells =>
      cases named
      exact spells.isName
    | attack => cases named

/-- The elements of an instance that was read are between its names. -/
theorem over_isName_of_read {lines : List (List Char)} {framework : Framework String}
    (done : (read (lines.map fun line => .ok (String.ofList line))).result = .ok framework)
    {element : Element String} (member : element ∈ FromScratch.elements framework) :
    element.Over IsName := by
  obtain ⟨items, reads⟩ := Accepted.exists_reads ⟨framework, done⟩
  have isName : forall label, label ∈ framework.arguments.labels -> IsName label := by
    intro label known
    rw [(declared_of_read reads done).2.2.1, List.mem_filterMap] at known
    obtain ⟨item, inside, named⟩ := known
    obtain ⟨line, _, alone⟩ := exists_left_of_mem reads inside
    exact alone.isName named
  simp only [FromScratch.elements, List.mem_append, List.mem_map] at member
  rcases member with ⟨label, known, rfl⟩ | ⟨attack, known, rfl⟩
  · exact isName label known
  · obtain ⟨attacker, attacked⟩ := Framework.ends_mem_labels known
    exact ⟨isName _ attacker, isName _ attacked⟩

/-- An update of one element of an instance that was read is read as the patch of this element when
the names of the element are of ASCII characters, and otherwise its item is refused. -/
theorem read_addressed (text : String) (framework : Framework String)
    (done : (read (Text.linesOfBytes text.toUTF8)).result = .ok framework)
    (element : Element String) (member : element ∈ FromScratch.elements framework)
    (enables : Bool) :
    let line := (Patch.ofSign enables element).text ++ "."
    (element.Over IsAscii -> readUpdate line = .ok [Patch.ofSign enables element]) ∧
    (¬ element.Over IsAscii -> readUpdate line =
      .error ⟨[.readingUpdate line], .text (.invalidUpdateItem element.text)⟩) := by
  intro line
  rw [read_encoded] at done
  have named := over_isName_of_read done member
  have single : readUpdate line = during (.readingUpdate line)
      (readItems readElement? enables [element.text.toList]) := readUpdate_text named enables
  constructor
  · intro ascii
    have found := readElement?_eq_some_iff.mpr (names_text (over_isLabel named ascii)).1
    rw [single, readItems, List.mapM_cons, found]
    rfl
  · intro foreign
    have trimmed := (solid_text element).trim_eq_iff.mpr (.refl _)
    rw [single, readItems, List.mapM_cons, readElement?_text_eq_none named foreign, trimmed,
      String.ofList_toList]
    rfl

/-- An argument with an ASCII name, and an attack on one whose name has a digit of another
script. -/
theorem read_addressed_digits :
    ∃ framework,
      (read (Text.linesOfBytes "arg(a\u0663).\narg(b).\natt(b,a\u0663).\n".toUTF8)).result =
        .ok framework ∧
      readUpdate "-arg(b)." = .ok [.disable (.argument "b")] ∧
      readUpdate "+att(b,a\u0663)." =
        .error ⟨[.readingUpdate "+att(b,a\u0663)."],
          .text (.invalidUpdateItem "att(b,a\u0663)")⟩ := by
  refine ⟨_, rfl, ?_, ?_⟩
  · exact (read_addressed "arg(a\u0663).\narg(b).\natt(b,a\u0663).\n" _ rfl (.argument "b")
      (by decide) false).1 (by decide)
  · exact (read_addressed "arg(a\u0663).\narg(b).\natt(b,a\u0663).\n" _ rfl
      (.attack "b" "a\u0663") (by decide) true).2 (by decide)

/-- Not every argument of an instance that is read can be disabled. -/
theorem unaddressed_argument :
    ∃ framework, (read (Text.linesOfBytes "arg(a\u0663).\n".toUTF8)).result = .ok framework ∧
      framework.arguments.labels = ["a\u0663"] ∧
      readUpdate "-arg(a\u0663)." =
        .error ⟨[.readingUpdate "-arg(a\u0663)."], .text (.invalidUpdateItem "arg(a\u0663)")⟩ :=
  ⟨_, rfl, rfl, rfl⟩

end Argumentation.Format.Apx
