import Argumentation.Format.Update
import Argumentation.Proofs.Format.Labels
import Argumentation.Proofs.Text.Padding
import Argumentation.Proofs.Text.Readability
import Mathlib.Data.List.Forall2

/-!
# Items of updates

An update line is a sign and items separated by colons. The formats differ in how an item names an
element; as no item holds a colon, the items of a line can be told apart in both. So a line is read
exactly when it can be written as a sign and items that name elements, and the elements are then
known.
-/

namespace Argumentation

namespace Patch

/-- Whether a patch enables its element. -/
def enables {α : Type} : Patch α -> Bool
  | .enable _ => true
  | .disable _ => false

@[simp]
theorem enables_ofSign {α : Type} (enables : Bool) (element : Element α) :
    (ofSign enables element).enables = enables := by
  cases enables <;> rfl

/-- A patch is its sign and its element. -/
theorem ofSign_element {α : Type} (patch : Patch α) :
    ofSign patch.enables patch.element = patch := by
  cases patch <;> rfl

/-- Patches of one sign are known from their elements. -/
theorem map_ofSign_element {α : Type} {enables : Bool} {patches : List (Patch α)}
    (same : forall patch, patch ∈ patches -> patch.enables = enables) :
    (patches.map element).map (ofSign enables) = patches := by
  rw [List.map_map]
  refine (List.map_congr_left fun patch member => ?_).trans (List.map_id patches)
  rw [Function.comp_apply, ← same patch member, ofSign_element, id]

end Patch

/-- An element whose labels have a property. -/
def Element.Over {α : Type} (property : α -> Prop) : Element α -> Prop
  | .argument label => property label
  | .attack attacker attacked => property attacker ∧ property attacked

instance {α : Type} (property : α -> Prop) [DecidablePred property] :
    (element : Element α) -> Decidable (element.Over property)
  | .argument label => inferInstanceAs (Decidable (property label))
  | .attack attacker attacked =>
    inferInstanceAs (Decidable (property attacker ∧ property attacked))

namespace Label

/-- A valid label is a word. -/
theorem isWord_of_isValid {label : String} (valid : isValid label = true) :
    Text.IsWord label.toList := by
  simp only [isValid, text, id, Bool.and_eq_true, Bool.not_eq_true', List.isEmpty_eq_false_iff,
    List.all_eq_true] at valid
  refine ⟨valid.1, fun character member => ?_⟩
  have plain := valid.2 character member
  simp only [isPlain, Bool.not_or, Bool.and_eq_true, Bool.not_eq_true'] at plain
  exact plain.1

/-- Around a valid label there are blanks only, so reserved characters do not occur there either. -/
theorem not_mem_padded {label : String} {text : List Char} (valid : isValid label = true)
    (padded : Text.Padded label.toList text) {character : Char}
    (separates : character ∈ reserved) : character ∉ text := by
  have none : reserved.any Text.isBlank = false := by decide
  have bare := List.any_eq_false.mp none character separates
  exact padded.not_mem (Bool.eq_false_iff.mpr bare) (not_mem_of_isValid valid separates)

end Label

namespace Format

open Text (Blank)

/-- The sign of the patches that enable their element, or disable it. -/
def sign (enables : Bool) : Char :=
  if enables then '+' else '-'

theorem isBlank_sign (enables : Bool) : Text.isBlank (sign enables) = false := by
  cases enables <;> decide

/-- A line has a sign when, up to blanks, it starts with one. -/
theorem splitSign?_eq_some_iff {line rest : List Char} {enables : Bool} :
    splitSign? line = some (enables, rest) ↔
      ∃ before, Blank before ∧ line = before ++ sign enables :: rest := by
  constructor
  · intro found
    obtain ⟨before, blank, split⟩ := Text.exists_skipBlanks line
    refine ⟨before, blank, split.trans ?_⟩
    unfold splitSign? at found
    split at found
    · rename_i starts
      cases found
      rw [starts]
      rfl
    · rename_i starts
      cases found
      rw [starts]
      rfl
    · cases found
  · rintro ⟨before, blank, rfl⟩
    rw [splitSign?, Text.skipBlanks_append blank, Text.skipBlanks_cons (isBlank_sign enables)]
    cases enables <;> rfl

section Items

variable {element? : List Char -> Option (Element String)}
  {names : List Char -> Element String -> Prop} {enables : Bool} {patches : List (Patch String)}

/-- Items are read when each one names an element, and the patches are about these elements. -/
theorem readItems_eq_ok_iff
    (exact : forall item element, element? item = some element ↔ names item element)
    {items : List (List Char)} :
    readItems element? enables items = .ok patches ↔
      ∃ elements, List.Forall₂ names items elements ∧
        patches = elements.map (Patch.ofSign enables) := by
  induction items generalizing patches with
  | nil =>
    constructor
    · intro read
      cases read
      exact ⟨[], .nil, rfl⟩
    · rintro ⟨elements, named, rfl⟩
      cases named
      rfl
  | cons item items ih =>
    rw [readItems, List.mapM_cons, ← readItems, bind_eq_ok]
    constructor
    · rintro ⟨patch, first, read⟩
      obtain ⟨others, later, listed⟩ := bind_eq_ok.mp read
      cases listed
      obtain ⟨elements, named, rfl⟩ := ih.mp later
      split at first
      · rename_i element found
        cases first
        exact ⟨element :: elements, .cons ((exact item element).mp found) named, rfl⟩
      · cases first
    · rintro ⟨elements, named, rfl⟩
      cases named with
      | cons first named =>
        refine ⟨_, ?_, bind_eq_ok.mpr ⟨_, ih.mpr ⟨_, named, rfl⟩, rfl⟩⟩
        rw [(exact item _).mpr first]

/-- A text of items, separated by colons, that name some elements in their order. There is at least
one item. -/
def ListsElements (names : List Char -> Element String -> Prop) (text : List Char)
    (elements : List (Element String)) : Prop :=
  elements ≠ [] ∧ ∃ items, text = [':'].intercalate items ∧ List.Forall₂ names items elements

/-- The items between the colons of a text are read when the text lists elements. -/
theorem readItems_splitOn_eq_ok_iff
    (exact : forall item element, element? item = some element ↔ names item element)
    (plain : forall item element, names item element -> ':' ∉ item) {text : List Char} :
    readItems element? enables (text.splitOn ':') = .ok patches ↔
      ∃ elements, ListsElements names text elements ∧
        patches = elements.map (Patch.ofSign enables) := by
  rw [readItems_eq_ok_iff exact]
  refine exists_congr fun elements => and_congr_left fun _ => ?_
  constructor
  · intro named
    refine ⟨?_, text.splitOn ':', (List.intercalate_splitOn ':').symm, named⟩
    rintro rfl
    rw [List.forall₂_nil_right_iff] at named
    exact List.splitOn_ne_nil ':' text named
  · rintro ⟨filled, items, rfl, named⟩
    rwa [List.splitOn_intercalate ':']
    · exact ((List.forall₂_and_left ..).mp
        (named.imp fun item element one => ⟨plain item element one, one⟩)).1
    · rintro rfl
      exact filled (List.forall₂_nil_left_iff.mp named)

/-- What holds for whatever an item names holds for the elements that a text lists. -/
theorem ListsElements.forall_mem {text : List Char} {elements : List (Element String)}
    {property : Element String -> Prop} (listed : ListsElements names text elements)
    (holds : forall item element, names item element -> property element) :
    forall element, element ∈ elements -> property element := by
  obtain ⟨_, items, _, named⟩ := listed
  have flipped : List.Forall₂ (fun element item => property element ∧ names item element)
      elements items :=
    List.Forall₂.flip (named.imp fun item element one => ⟨holds item element one, one⟩)
  exact ((List.forall₂_and_left ..).mp flipped).1

/-- The patches of a sign for some elements are written as the sign and the elements. -/
def signedText (write : Element String -> String) (enables : Bool)
    (elements : List (Element String)) : String :=
  String.singleton (sign enables) ++ String.intercalate ":" (elements.map write)

/-- What is written for some elements is the sign and a text that lists them, which has no line feed
if the written elements have none. -/
theorem toList_signedText {write : Element String -> String} {elements : List (Element String)}
    (filled : elements ≠ [])
    (written : forall element, element ∈ elements ->
      names (write element).toList element ∧ '\n' ∉ (write element).toList) :
    ∃ items, (signedText write enables elements).toList = sign enables :: items ∧
      ListsElements names items elements ∧ '\n' ∉ items := by
  refine ⟨[':'].intercalate (elements.map fun element => (write element).toList), ?_,
    ⟨filled, _, rfl, ?_⟩, Text.not_mem_intercalate (by decide) fun part member => ?_⟩
  · rw [signedText, String.toList_append, String.toList_singleton, List.singleton_append,
      String.toList_intercalate, List.map_map]
    rfl
  · rw [List.forall₂_map_left_iff, List.forall₂_same]
    exact fun element member => (written element member).1
  · obtain ⟨element, known, rfl⟩ := List.mem_map.mp member
    exact (written element known).2

end Items

end Format

end Argumentation
