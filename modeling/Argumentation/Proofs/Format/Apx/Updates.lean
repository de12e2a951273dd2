import Argumentation.Format.Apx
import Argumentation.Proofs.Format.Items

/-!
# Updates in the Aspartix format

An item of an update names an argument as `arg(a)` and an attack as `att(a,b)`, with blanks around
the item and around its labels. A line is read exactly when it is a sign, items separated by colons,
and a final period. The written form of patches is one of the lines that are read as these patches.
-/

namespace Argumentation.Format.Apx

open Text (Blank Padded)

/-- A label of an update: one or more ASCII letters, digits and underscores. -/
structure IsLabel (label : String) : Prop where
  filled : label ≠ ""
  characters : forall character, character ∈ label.toList ->
    character = '_' ∨ character.isAlphanum = true

/-- The items that name an element. -/
inductive Names : List Char -> Element String -> Prop
  | argument {label : String} {inner text : List Char} (isLabel : IsLabel label)
      (inside : Padded label.toList inner)
      (around : Padded (['a', 'r', 'g', '('] ++ inner ++ [')']) text) :
      Names text (.argument label)
  | attack {attacker attacked : String} {left right text : List Char} (first : IsLabel attacker)
      (second : IsLabel attacked) (leftInside : Padded attacker.toList left)
      (rightInside : Padded attacked.toList right)
      (around : Padded (['a', 't', 't', '('] ++ (left ++ [','] ++ right) ++ [')']) text) :
      Names text (.attack attacker attacked)

section Labels

variable {label : String} {text : List Char}

/-- What is tested of a label when it is read. -/
theorem isLabel_iff :
    IsLabel label ↔ (!label.toList.isEmpty && label.toList.all isUpdateCharacter) = true := by
  simp only [Bool.and_eq_true, Bool.not_eq_true', List.isEmpty_eq_false_iff, List.all_eq_true,
    isUpdateCharacter, Bool.or_eq_true, decide_eq_true_eq]
  exact ⟨fun isLabel => ⟨mt String.toList_eq_nil_iff.mp isLabel.filled, isLabel.characters⟩,
    fun tested => ⟨mt String.toList_eq_nil_iff.mpr tested.1, tested.2⟩⟩

instance (label : String) : Decidable (IsLabel label) :=
  decidable_of_iff _ isLabel_iff.symm

theorem IsLabel.isValid (isLabel : IsLabel label) : Label.isValid label = true := by
  have tested := isLabel_iff.mp isLabel
  simp only [Bool.and_eq_true, Bool.not_eq_true', List.isEmpty_eq_false_iff,
    List.all_eq_true] at tested
  rw [← String.ofList_toList (s := label)]
  exact Label.isValid_ofList tested.1 fun character member =>
    isPlain_of_isUpdateCharacter (tested.2 character member)

theorem IsLabel.isWord (isLabel : IsLabel label) : Text.IsWord label.toList :=
  Label.isWord_of_isValid isLabel.isValid

/-- A text is read as the label that it holds up to blanks. -/
theorem readLabel?_eq_some_iff :
    readLabel? text = some label ↔ IsLabel label ∧ Padded label.toList text := by
  constructor
  · intro read
    simp only [readLabel?, Option.ite_none_right_eq_some, Option.some.injEq] at read
    obtain ⟨tested, rfl⟩ := read
    rw [isLabel_iff, String.toList_ofList]
    exact ⟨tested, Text.padded_trim text⟩
  · rintro ⟨isLabel, padded⟩
    have trimmed := isLabel.isWord.solid.trim_eq_iff.mpr padded
    simp only [readLabel?, trimmed, isLabel_iff.mp isLabel, if_true, String.ofList_toList]

end Labels

section Elements

variable {opening inner text : List Char} {element : Element String}

/-- What stands between an opening text and a closing parenthesis. -/
def enclosed? (opening text : List Char) : Option (List Char) := do
  let rest ← opening.isPrefixOf? text
  if rest.getLast? = some ')' then some rest.dropLast else none

theorem enclosed?_eq_some_iff :
    enclosed? opening text = some inner ↔ text = opening ++ inner ++ [')'] := by
  rw [enclosed?, Option.bind_eq_bind, Option.bind_eq_some_iff]
  constructor
  · rintro ⟨rest, found, closed⟩
    rw [Option.ite_none_right_eq_some, List.getLast?_eq_some_iff] at closed
    obtain ⟨⟨before, rfl⟩, same⟩ := closed
    rw [List.dropLast_concat, Option.some.injEq] at same
    rw [← List.isPrefixOf?_eq_some_iff_append_eq.mp found, same, List.append_assoc]
  · rintro rfl
    refine ⟨inner ++ [')'], ?_, ?_⟩
    · rw [List.isPrefixOf?_eq_some_iff_append_eq, List.append_assoc]
    · rw [List.getLast?_concat, if_pos rfl, List.dropLast_concat]

/-- The label between the parentheses of an argument. -/
def namedArgument? (inner : List Char) : Option (Element String) := do
  let label ← readLabel? inner
  some (.argument label)

theorem namedArgument?_eq_some_iff : namedArgument? inner = some element ↔
    ∃ label, IsLabel label ∧ Padded label.toList inner ∧ Element.argument label = element := by
  simp only [namedArgument?, Option.bind_eq_bind, Option.bind_eq_some_iff, readLabel?_eq_some_iff,
    Option.some.injEq, and_assoc]

/-- The labels between the parentheses of an attack. -/
def namedAttack? (inner : List Char) : Option (Element String) :=
  match inner.splitOn ',' with
  | [first, second] => do
    let attacker ← readLabel? first
    let attacked ← readLabel? second
    some (.attack attacker attacked)
  | _ => none

theorem splitOn_pair {left right : List Char} (first : ',' ∉ left) (second : ',' ∉ right) :
    (left ++ [','] ++ right).splitOn ',' = [left, right] := by
  have plain : forall part, part ∈ [left, right] -> ',' ∉ part := by
    simp [first, second]
  have parts := List.splitOn_intercalate ',' plain (List.cons_ne_nil _ _)
  rwa [List.intercalate_cons_cons, List.intercalate_singleton] at parts

theorem namedAttack?_eq_some_iff : namedAttack? inner = some element ↔
    ∃ attacker attacked left right, IsLabel attacker ∧ IsLabel attacked ∧
      Padded attacker.toList left ∧ Padded attacked.toList right ∧ inner = left ++ [','] ++ right ∧
      element = .attack attacker attacked := by
  constructor
  · intro read
    unfold namedAttack? at read
    split at read
    · rename_i left right parts
      simp only [Option.bind_eq_bind, Option.bind_eq_some_iff, readLabel?_eq_some_iff,
        Option.some.injEq] at read
      obtain ⟨attacker, ⟨first, leftInside⟩, attacked, ⟨second, rightInside⟩, rfl⟩ := read
      refine ⟨attacker, attacked, left, right, first, second, leftInside, rightInside, ?_, rfl⟩
      rw [← inner.intercalate_splitOn ',', parts]
      simp
    · cases read
  · rintro ⟨attacker, attacked, left, right, first, second, leftInside, rightInside, rfl, rfl⟩
    have comma : ',' ∈ Label.reserved := by decide
    rw [namedAttack?, splitOn_pair (Label.not_mem_padded first.isValid leftInside comma)
      (Label.not_mem_padded second.isValid rightInside comma)]
    simp only [readLabel?_eq_some_iff.mpr ⟨first, leftInside⟩,
      readLabel?_eq_some_iff.mpr ⟨second, rightInside⟩]
    rfl

theorem readElement?_eq_or (item : List Char) : readElement? item =
    ((enclosed? ['a', 'r', 'g', '('] (Text.trim item)).bind namedArgument?).or
      ((enclosed? ['a', 't', 't', '('] (Text.trim item)).bind namedAttack?) :=
  Option.orElse_eq_or ..

/-- An item is read as the element that it names. -/
theorem readElement?_eq_some_iff : readElement? text = some element ↔ Names text element := by
  have around {opening : List Char} (isWord : Text.IsWord opening) (inner : List Char) :
      Text.trim text = opening ++ inner ++ [')'] ↔ Padded (opening ++ inner ++ [')']) text :=
    (Text.Solid.enclose isWord (show Text.IsWord [')'] by decide) inner).trim_eq_iff
  have arg := around (show Text.IsWord ['a', 'r', 'g', '('] by decide)
  have att := around (show Text.IsWord ['a', 't', 't', '('] by decide)
  simp only [readElement?_eq_or, Option.or_eq_some_iff, Option.bind_eq_some_iff,
    enclosed?_eq_some_iff, arg, att, namedArgument?_eq_some_iff, namedAttack?_eq_some_iff]
  constructor
  · rintro (⟨inner, padded, label, isLabel, inside, rfl⟩ |
      ⟨_, _, padded, _, _, left, right, first, second, leftInside, rightInside, rfl, rfl⟩)
    · exact .argument isLabel inside padded
    · exact .attack first second leftInside rightInside padded
  · intro named
    cases named with
    | argument isLabel inside padded => exact .inl ⟨_, padded, _, isLabel, inside, rfl⟩
    | attack first second leftInside rightInside padded =>
      refine .inr ⟨?_, _, padded, _, _, _, _, first, second, leftInside, rightInside, rfl, rfl⟩
      rw [(att _).mpr padded]
      rfl

/-- Only labels are in what names an element. -/
theorem Names.over (named : Names text element) : element.Over IsLabel := by
  cases named with
  | argument isLabel => exact isLabel
  | attack first second => exact ⟨first, second⟩

theorem Names.colon_not_mem (named : Names text element) : ':' ∉ text := by
  have bare : Text.isBlank ':' = false := by decide
  cases named with
  | argument isLabel inside around =>
    refine around.not_mem bare ?_
    simp [Label.not_mem_padded isLabel.isValid inside (show ':' ∈ Label.reserved by decide)]
  | attack first second leftInside rightInside around =>
    refine around.not_mem bare ?_
    simp [Label.not_mem_padded first.isValid leftInside (show ':' ∈ Label.reserved by decide),
      Label.not_mem_padded second.isValid rightInside (show ':' ∈ Label.reserved by decide)]

theorem toList_text_argument (label : String) :
    (Element.argument label).text.toList = ['a', 'r', 'g', '('] ++ label.toList ++ [')'] := by
  simp [Element.text, Element.flagAtom, Atom.text, Label.text]

theorem toList_text_attack (attacker attacked : String) :
    (Element.attack attacker attacked).text.toList =
      ['a', 't', 't', '('] ++ (attacker.toList ++ [','] ++ attacked.toList) ++ [')'] := by
  simp [Element.text, Element.flagAtom, Atom.text, Label.text]

/-- An element is named by its written form, which has no line feed. -/
theorem names_text (labelled : element.Over IsLabel) :
    Names element.text.toList element ∧ '\n' ∉ element.text.toList := by
  have unbroken {label : String} (isLabel : IsLabel label) : '\n' ∉ label.toList :=
    isLabel.isWord.not_mem (by decide)
  cases element with
  | argument label =>
    rw [toList_text_argument]
    exact ⟨.argument labelled (.refl _) (.refl _), by simp [unbroken labelled]⟩
  | attack attacker attacked =>
    rw [toList_text_attack]
    refine ⟨.attack labelled.1 labelled.2 (.refl _) (.refl _) (.refl _), ?_⟩
    simp [unbroken labelled.1, unbroken labelled.2]

end Elements

section Updates

variable {line : List Char} {items : List Char} {enables : Bool}

/-- The items of an update stand between its sign and its final period. -/
theorem splitUpdate?_eq_some_iff :
    splitUpdate? line = some (enables, items) ↔ ∃ before after, Blank before ∧ Blank after ∧
      '\n' ∉ items ∧ line = before ++ sign enables :: items ++ '.' :: after := by
  have period : Text.isBlank '.' = false := by decide
  simp only [splitUpdate?, Option.bind_eq_bind, Option.bind_eq_some_iff,
    Option.ite_none_right_eq_some, Bool.and_eq_true, decide_eq_true_eq, List.getLast?_eq_some_iff,
    Bool.not_eq_true', Option.some.injEq, Prod.mk.injEq, Prod.exists, splitSign?_eq_some_iff]
  constructor
  · rintro ⟨_, rest, ⟨before, blank, rfl⟩, ⟨⟨items, ended⟩, unbroken⟩, rfl, rfl⟩
    obtain ⟨after, blank', split⟩ := Text.exists_dropTrailingBlanks rest
    rw [ended] at split unbroken
    refine ⟨before, after, blank, blank', ?_, ?_⟩
    · rw [ended, List.dropLast_concat]
      simpa using unbroken
    · rw [ended, List.dropLast_concat, split]
      simp
  · rintro ⟨before, after, blank, blank', unbroken, rfl⟩
    have ended : Text.dropTrailingBlanks (items ++ '.' :: after) = items ++ ['.'] := by
      rw [List.append_cons, Text.dropTrailingBlanks_append blank',
        Text.dropTrailingBlanks_concat period]
    refine ⟨enables, items ++ '.' :: after, ⟨before, blank, by simp⟩, ⟨⟨items, ended⟩, ?_⟩, rfl, ?_⟩
    · rw [ended]
      simpa using unbroken
    · rw [ended, List.dropLast_concat]

/-- A line is read when it has a sign, a text that lists elements without line feeds, and a final
period. -/
theorem readUpdate_eq_ok_iff {line : String} {patches : List (Patch String)} :
    readUpdate line = .ok patches ↔ ∃ before enables items after elements, Blank before ∧
      Blank after ∧ line.toList = before ++ sign enables :: items ++ '.' :: after ∧
      '\n' ∉ items ∧ ListsElements Names items elements ∧
      patches = elements.map (Patch.ofSign enables) := by
  have itemsRead (enables : Bool) (items : List Char) :
      readItems readElement? enables (items.splitOn ':') = .ok patches ↔
        ∃ elements, ListsElements Names items elements ∧
          patches = elements.map (Patch.ofSign enables) :=
    readItems_splitOn_eq_ok_iff (fun _ _ => readElement?_eq_some_iff) fun _ _ => Names.colon_not_mem
  rw [readUpdate, during, mapError_eq_ok]
  constructor
  · intro read
    split at read
    · cases read
    · rename_i enables items found
      obtain ⟨before, after, blank, blank', unbroken, split⟩ := splitUpdate?_eq_some_iff.mp found
      obtain ⟨elements, listed, rfl⟩ := (itemsRead enables items).mp read
      exact ⟨before, enables, items, after, elements, blank, blank', split, unbroken, listed, rfl⟩
  · rintro ⟨before, enables, items, after, elements, blank, blank', split, unbroken, listed, rfl⟩
    rw [splitUpdate?_eq_some_iff.mpr ⟨before, after, blank, blank', unbroken, split⟩]
    exact (itemsRead enables items).mpr ⟨elements, listed, rfl⟩

/-- What is written for patches of one sign, followed by a period, is read as these patches. -/
theorem readUpdate_signedText {elements : List (Element String)} (filled : elements ≠ [])
    (labelled : forall element, element ∈ elements -> element.Over IsLabel) :
    readUpdate (signedText Element.text enables elements ++ ".") =
      .ok (elements.map (Patch.ofSign enables)) := by
  obtain ⟨items, text, listed, unbroken⟩ := toList_signedText filled fun element member =>
    names_text (labelled element member)
  rw [readUpdate_eq_ok_iff]
  refine ⟨[], enables, items, [], elements, .nil, .nil, ?_, unbroken, listed, rfl⟩
  rw [String.toList_append, text]
  rfl

/-- A single patch is written as the items of its sign are. -/
theorem signedText_singleton (patch : Patch String) :
    signedText Element.text patch.enables [patch.element] = patch.text := by
  cases patch <;> rfl

/-- A line without a line feed is read exactly when it is, up to blanks around it, a sign, a text
that lists elements, and a period; the patches are these elements with this sign, in their order. A
patch followed by a period is such a line. Whatever is read are patches of one sign, at least one of
them, and their canonical line is read as the same patches. -/
theorem readUpdate_canonical :
    (forall (line : String) (patches : List (Patch String)), '\n' ∉ line.toList ->
      (readUpdate line = .ok patches ↔ ∃ before enables items after elements, Blank before ∧
        Blank after ∧ line.toList = before ++ sign enables :: items ++ '.' :: after ∧
        ListsElements Names items elements ∧ patches = elements.map (Patch.ofSign enables))) ∧
    (forall patch : Patch String, patch.element.Over IsLabel ->
      readUpdate (patch.text ++ ".") = .ok [patch]) ∧
    forall (line : String) (patches : List (Patch String)), '\n' ∉ line.toList ->
      readUpdate line = .ok patches -> patches ≠ [] ∧ ∃ before enables rest, Blank before ∧
        line.toList = before ++ sign enables :: rest ∧
        (forall patch, patch ∈ patches -> patch.enables = enables ∧ patch.element.Over IsLabel) ∧
        readUpdate (signedText Element.text enables (patches.map Patch.element) ++ ".") =
          .ok patches := by
  refine ⟨fun line patches unbroken => ?_, fun patch labelled => ?_,
    fun line patches unbroken read => ?_⟩
  · rw [readUpdate_eq_ok_iff]
    constructor
    · rintro ⟨before, enables, items, after, elements, blank, blank', split, _, listed, rfl⟩
      exact ⟨before, enables, items, after, elements, blank, blank', split, listed, rfl⟩
    · rintro ⟨before, enables, items, after, elements, blank, blank', split, listed, rfl⟩
      refine ⟨before, enables, items, after, elements, blank, blank', split, fun inside => ?_,
        listed, rfl⟩
      exact unbroken (by simp [split, inside])
  · rw [← signedText_singleton, readUpdate_signedText (by simp) (by simpa using labelled)]
    simp [Patch.ofSign_element]
  · obtain ⟨before, enables, items, after, elements, blank, _, split, _, listed, rfl⟩ :=
      readUpdate_eq_ok_iff.mp read
    have labelled : forall element, element ∈ elements -> element.Over IsLabel :=
      listed.forall_mem fun _ _ => Names.over
    have same : (elements.map (Patch.ofSign enables)).map Patch.element = elements := by
      simp [Function.comp_def]
    refine ⟨by simpa using listed.1, before, enables, items ++ '.' :: after, blank, ?_, ?_, ?_⟩
    · simp [split]
    · intro patch member
      obtain ⟨element, known, rfl⟩ := List.mem_map.mp member
      simpa using labelled element known
    · rw [same, readUpdate_signedText listed.1 labelled]

/-- Blanks of several kinds in all the places where they may stand. -/
theorem readUpdate_canonical_padded :
    '\n' ∉ "\t- arg( a_1 ): att(b ,\u20032 )\u00A0.  ".toList ∧
    readUpdate "\t- arg( a_1 ): att(b ,\u20032 )\u00A0.  " =
      .ok [.disable (.argument "a_1"), .disable (.attack "b" "2")] ∧
    (Patch.enable (Element.attack "b" "2")).text ++ "." = "+att(b,2)." ∧
    readUpdate "+att(b,2)." = .ok [.enable (.attack "b" "2")] ∧
    signedText Element.text false [.argument "a_1", .attack "b" "2"] ++ "." =
      "-arg(a_1):att(b,2)." ∧
    readUpdate "-arg(a_1):att(b,2)." =
      .ok [.disable (.argument "a_1"), .disable (.attack "b" "2")] := by
  have first : IsLabel "a_1" := by decide
  have second : IsLabel "b" := by decide
  have third : IsLabel "2" := by decide
  have unbroken : '\n' ∉ "\t- arg( a_1 ): att(b ,\u20032 )\u00A0.  ".toList := by decide
  have read : readUpdate "\t- arg( a_1 ): att(b ,\u20032 )\u00A0.  " =
      .ok [.disable (.argument "a_1"), .disable (.attack "b" "2")] := by
    refine (readUpdate_canonical.1 _ _ unbroken).mpr ⟨['\t'], false,
      " arg( a_1 ): att(b ,\u20032 )\u00A0".toList, [' ', ' '],
      [.argument "a_1", .attack "b" "2"], by decide, by decide, by decide,
      ⟨by decide, [" arg( a_1 )".toList, " att(b ,\u20032 )\u00A0".toList], by decide, ?_⟩, rfl⟩
    refine .cons (@Names.argument _ " a_1 ".toList _ first ⟨[' '], [' '], ?_⟩ ⟨[' '], [], ?_⟩)
      (.cons (@Names.attack _ _ "b ".toList "\u20032 ".toList _ second third ⟨[], [' '], ?_⟩
        ⟨['\u2003'], [' '], ?_⟩ ⟨[' '], ['\u00A0'], ?_⟩) .nil)
    all_goals decide
  obtain ⟨_, _, _, _, _, _, uniform, again⟩ := readUpdate_canonical.2.2 _ _ unbroken read
  cases (uniform _ List.mem_cons_self).1
  exact ⟨unbroken, read, rfl, readUpdate_canonical.2.1 (.enable (.attack "b" "2")) ⟨second, third⟩,
    rfl, again⟩

end Updates

end Argumentation.Format.Apx
