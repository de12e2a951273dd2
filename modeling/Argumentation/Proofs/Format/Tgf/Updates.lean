import Argumentation.Proofs.Format.Tgf.Elements

/-!
# Updates in the trivial graph format

The sign of an update is also a character of labels, and blanks stand both between and around
labels. A line is nevertheless read in one way only: its first character that is not blank is the
sign, the colons separate the items, and each item names one element.
-/

namespace Argumentation.Format.Tgf

open Text (Blank Padded)

/-- An element is written as its labels. -/
def elementText : Element String -> String
  | .argument label => label
  | .attack attacker attacked => attacker ++ " " ++ attacked

theorem names_elementText {element : Element String} (labelled : element.Over IsLabel) :
    Names (elementText element).toList element ∧ '\n' ∉ (elementText element).toList := by
  have unbroken {label : String} (isLabel : IsLabel label) : '\n' ∉ label.toList :=
    isLabel.isWord.not_mem (by decide)
  cases element with
  | argument label => exact ⟨.argument labelled (.refl _), unbroken labelled⟩
  | attack attacker attacked =>
    have text : (elementText (.attack attacker attacked)).toList =
        attacker.toList ++ [' '] ++ attacked.toList := by
      rw [elementText, String.toList_append, String.toList_append]
      rfl
    rw [text]
    refine ⟨.attack labelled.1 labelled.2 (by decide) (by decide) (.refl _), ?_⟩
    simp [unbroken labelled.1, unbroken labelled.2]

/-- A line is read when it has a sign and what follows the sign, without line feeds, lists
elements. -/
theorem readUpdate_eq_ok_iff {line : String} {patches : List (Patch String)} :
    readUpdate line = .ok patches ↔ ∃ before enables items elements, Blank before ∧
      line.toList = before ++ sign enables :: items ∧ '\n' ∉ items ∧
      ListsElements Names items elements ∧ patches = elements.map (Patch.ofSign enables) := by
  have itemsRead (enables : Bool) (items : List Char) :
      readItems readElement? enables (items.splitOn ':') = .ok patches ↔
        ∃ elements, ListsElements Names items elements ∧
          patches = elements.map (Patch.ofSign enables) :=
    readItems_splitOn_eq_ok_iff (fun _ _ => readElement?_eq_some_iff) fun _ _ => Names.colon_not_mem
  rw [readUpdate, during, mapError_eq_ok]
  constructor
  · intro read
    split at read
    · rename_i enables items found
      obtain ⟨before, blank, split⟩ := splitSign?_eq_some_iff.mp found
      split at read
      · cases read
      · rename_i unbroken
        obtain ⟨elements, listed, rfl⟩ := (itemsRead enables items).mp read
        exact ⟨before, enables, items, elements, blank, split, by simpa using unbroken, listed, rfl⟩
    · cases read
  · rintro ⟨before, enables, items, elements, blank, split, unbroken, listed, rfl⟩
    have found := splitSign?_eq_some_iff.mpr ⟨before, blank, split⟩
    have unbroken' : ¬ items.contains '\n' = true := by simpa using unbroken
    simp only [found]
    rw [if_neg unbroken']
    exact (itemsRead enables items).mpr ⟨elements, listed, rfl⟩

/-- A line without a line feed is read exactly when its first character that is not blank is a sign
and the rest lists elements; the patches are then these elements with this sign, in their order.
What is written for patches of one sign is thus read as these patches. -/
theorem readUpdate_exact :
    (forall (line : String) (patches : List (Patch String)), '\n' ∉ line.toList ->
      (readUpdate line = .ok patches ↔ ∃ before enables items elements, Blank before ∧
        line.toList = before ++ sign enables :: items ∧ ListsElements Names items elements ∧
        patches = elements.map (Patch.ofSign enables))) ∧
    forall (enables : Bool) (patches : List (Patch String)), patches ≠ [] ->
      (forall patch, patch ∈ patches -> patch.enables = enables ∧ patch.element.Over IsLabel) ->
      readUpdate (signedText elementText enables (patches.map Patch.element)) = .ok patches := by
  refine ⟨fun line patches unbroken => ?_, fun enables patches filled uniform => ?_⟩
  · rw [readUpdate_eq_ok_iff]
    constructor
    · rintro ⟨before, enables, items, elements, blank, split, _, listed, rfl⟩
      exact ⟨before, enables, items, elements, blank, split, listed, rfl⟩
    · rintro ⟨before, enables, items, elements, blank, split, listed, rfl⟩
      refine ⟨before, enables, items, elements, blank, split, fun inside => unbroken ?_, listed,
        rfl⟩
      rw [split]
      exact List.mem_append_right _ (List.mem_cons_of_mem _ inside)
  · have written : forall element, element ∈ patches.map Patch.element ->
        Names (elementText element).toList element ∧ '\n' ∉ (elementText element).toList := by
      intro element member
      obtain ⟨patch, known, rfl⟩ := List.mem_map.mp member
      exact names_elementText (uniform patch known).2
    obtain ⟨items, text, listed, unbroken⟩ := toList_signedText (by simpa using filled) written
    rw [readUpdate_eq_ok_iff]
    refine ⟨[], enables, items, patches.map Patch.element, .nil, text, unbroken, listed, ?_⟩
    exact (Patch.map_ofSign_element fun patch member => (uniform patch member).1).symm

/-- Hyphens as signs and in labels, with blanks of several kinds around items and between labels. -/
theorem readUpdate_exact_hyphens :
    '\n' ∉ "\t - -a\u2003: b  -".toList ∧
    readUpdate "\t - -a\u2003: b  -" = .ok [.disable (.argument "-a"), .disable (.attack "b" "-")] ∧
    signedText elementText false [.argument "-a", .attack "b" "-"] = "--a:b -" ∧
    readUpdate "--a:b -" = .ok [.disable (.argument "-a"), .disable (.attack "b" "-")] := by
  have first : IsLabel "-a" := by decide
  have second : IsLabel "b" := by decide
  have third : IsLabel "-" := by decide
  refine ⟨by decide, (readUpdate_exact.1 _ _ (by decide)).mpr ?_, by decide, ?_⟩
  · refine ⟨['\t', ' '], false, " -a\u2003: b  -".toList, [.argument "-a", .attack "b" "-"],
      by decide, by decide, ⟨by decide, [" -a\u2003".toList, " b  -".toList], by decide, ?_⟩, rfl⟩
    refine .cons (.argument first ⟨[' '], ['\u2003'], by decide, by decide, by decide⟩)
      (.cons (.attack second third (show Blank [' ', ' '] by decide) (by decide)
        ⟨[' '], [], by decide, by decide, by decide⟩) .nil)
  · exact readUpdate_exact.2 false [.disable (.argument "-a"), .disable (.attack "b" "-")]
      (by decide) (by
        intro patch member
        simp only [List.mem_cons, List.not_mem_nil, or_false] at member
        rcases member with rfl | rfl
        · exact ⟨rfl, first⟩
        · exact ⟨rfl, second, third⟩)

end Argumentation.Format.Tgf
