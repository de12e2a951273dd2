import Argumentation.Proofs.Format.Writing
import Argumentation.Proofs.Text.Readability
import Mathlib.Data.List.Sort

/-!
# The order of printed extensions

Extensions are sorted by size and then by written form. Valid labels are not empty and have no
commas, so a list of them is known from its written form. Distinct extensions are thus strictly
ordered, and what is printed does not depend on the order in which they were found.
-/

namespace Argumentation

namespace Extension

section Forms

variable {α : Type} [Label α]

/-- The texts of labels with commas between them. -/
theorem toList_intercalate (labels : List α) :
    (String.intercalate "," (labels.map Label.text)).toList = Label.joined labels := by
  simp [String.toList_intercalate, Label.joined, Function.comp_def]

/-- Both forms of a list of valid labels tell it from any other, whatever the labels look like. -/
theorem intercalate_inj [LawfulLabel α] {first second : List α}
    (valid : forall label, label ∈ first -> Label.isValid label = true)
    (valid' : forall label, label ∈ second -> Label.isValid label = true)
    {before after : String}
    (same : before ++ String.intercalate "," (first.map Label.text) ++ after =
      before ++ String.intercalate "," (second.map Label.text) ++ after) : first = second := by
  have inner := congrArg String.toList same
  simp only [String.toList_append, List.append_cancel_left_eq, List.append_cancel_right_eq,
    toList_intercalate] at inner
  exact Label.joined_inj valid valid' inner

theorem eq_of_text_eq [LawfulLabel α] {first second : Extension α}
    (valid : forall label, label ∈ first -> Label.isValid label = true)
    (valid' : forall label, label ∈ second -> Label.isValid label = true)
    (same : text first = text second) : first = second :=
  intercalate_inj valid valid' same

theorem precedes_iff {left right : Extension α} : precedes left right = true ↔
    left.length < right.length ∨ left.length = right.length ∧ text left ≤ text right := by
  simp [precedes]

/-- Comparing sizes, and written forms of one size, is transitive if comparing written forms is. -/
theorem trans_of_sizes {related : String -> String -> Prop} {first second third : Extension α}
    (transitive : forall {one other third}, related one other -> related other third ->
      related one third)
    (left : first.length < second.length ∨
      first.length = second.length ∧ related (text first) (text second))
    (right : second.length < third.length ∨
      second.length = third.length ∧ related (text second) (text third)) :
    first.length < third.length ∨
      first.length = third.length ∧ related (text first) (text third) := by
  rcases left with shorter | ⟨sizes, smaller⟩
  · exact .inl (by omega)
  · rcases right with shorter' | ⟨sizes', smaller'⟩
    · exact .inl (by omega)
    · exact .inr ⟨sizes.trans sizes', transitive smaller smaller'⟩

theorem precedes_trans (first second third : Extension α) (left : precedes first second = true)
    (right : precedes second third = true) : precedes first third = true := by
  rw [precedes_iff] at *
  exact trans_of_sizes String.le_trans left right

theorem precedes_total (left right : Extension α) :
    (precedes left right || precedes right left) = true := by
  rw [Bool.or_eq_true, precedes_iff, precedes_iff]
  rcases Nat.lt_trichotomy left.length right.length with shorter | sizes | longer
  · exact .inl (.inl shorter)
  · exact (String.le_total (text left) (text right)).imp (fun le => .inr ⟨sizes, le⟩)
      fun le => .inr ⟨sizes.symm, le⟩
  · exact .inr (.inl longer)

theorem precedes_antisymm [LawfulLabel α] {left right : Extension α}
    (valid : forall label, label ∈ left -> Label.isValid label = true)
    (valid' : forall label, label ∈ right -> Label.isValid label = true)
    (first : precedes left right = true) (second : precedes right left = true) : left = right := by
  rw [precedes_iff] at first second
  have sizes : left.length = right.length := by omega
  exact eq_of_text_eq valid valid' (String.le_antisymm (first.resolve_left sizes.not_lt).2
    (second.resolve_left sizes.not_gt).2)

theorem sorted_perm (extensions : List (Extension α)) :
    (sorted extensions).Perm extensions :=
  List.mergeSort_perm extensions precedes

theorem pairwise_precedes_sorted (extensions : List (Extension α)) :
    (sorted extensions).Pairwise fun left right => precedes left right = true :=
  List.pairwise_mergeSort precedes_trans precedes_total extensions

/-- What is printed does not depend on the order in which the extensions were found. -/
theorem sorted_eq_of_perm [LawfulLabel α] {first second : List (Extension α)}
    (valid : forall extension, extension ∈ first ->
      forall label, label ∈ extension -> Label.isValid label = true)
    (same : first.Perm second) : sorted first = sorted second := by
  refine List.Perm.eq_of_pairwise (fun left right member member' => ?_)
    (pairwise_precedes_sorted first) (pairwise_precedes_sorted second)
    ((sorted_perm first).trans (same.trans (sorted_perm second).symm))
  have known := (sorted_perm first).mem_iff.mp member
  have known' := same.mem_iff.mpr ((sorted_perm second).mem_iff.mp member')
  exact precedes_antisymm (valid left known) (valid right known')

/-- Lists of valid labels are equal when they are written alike, on a line of their own or between
braces. So sorting extensions gives one sequence, whatever the order in which they were found. -/
theorem forms_injective [LawfulLabel α] :
    (forall first second : Extension α,
      (forall label, label ∈ first -> Label.isValid label = true) ->
      (forall label, label ∈ second -> Label.isValid label = true) ->
      (((Format.Answer.extension first).writeTo {}).2.content =
        ((Format.Answer.extension second).writeTo {}).2.content ↔ first = second) ∧
      (text first = text second ↔ first = second)) ∧
    forall first second : List (Extension α), (forall extension, extension ∈ first ->
        forall label, label ∈ extension -> Label.isValid label = true) ->
      first.Perm second -> sorted first = sorted second := by
  refine ⟨fun first second valid valid' => ⟨⟨fun same => ?_, ?_⟩, ?_, ?_⟩, fun first second =>
    sorted_eq_of_perm⟩
  · rw [Format.Answer.content_writeTo rfl, Format.Answer.content_writeTo rfl] at same
    exact intercalate_inj valid valid' (Format.Sink.bytesOf_inj (List.append_cancel_left same))
  · rintro rfl
    rfl
  · exact eq_of_text_eq valid valid'
  · rintro rfl
    rfl

-- The labels look like the line and like the written form of others.
theorem forms_injective_brackets :
    (((Format.Answer.extension ["a][b"]).writeTo {}).2.content =
      ((Format.Answer.extension ["a]", "[b"]).writeTo {}).2.content ↔ ["a][b"] = ["a]", "[b"]) ∧
    (text ["a\x7d\x7bb"] = text ["a\x7d", "\x7bb"] ↔ ["a\x7d\x7bb"] = ["a\x7d", "\x7bb"]) ∧
    sorted [["b"], ["ab"], []] = sorted [[], ["ab"], ["b"]] :=
  ⟨(forms_injective.1 ["a][b"] ["a]", "[b"] (by decide +kernel) (by decide +kernel)).1,
    (forms_injective.1 ["a\x7d\x7bb"] ["a\x7d", "\x7bb"] (by decide +kernel)
      (by decide +kernel)).2,
    forms_injective.2 [["b"], ["ab"], []] [[], ["ab"], ["b"]] (by decide +kernel)
      (by decide +kernel)⟩

end Forms

/-- An extension is shorter than another, or as long and with a related written form. -/
def BySize (related : String -> String -> Prop) (left right : Extension String) : Prop :=
  left.length < right.length ∨ left.length = right.length ∧ related (text left) (text right)

/-- An extension comes strictly before another. -/
abbrev Before : Extension String -> Extension String -> Prop :=
  BySize (· < ·)

theorem Before.trans {first second third : Extension String} (left : Before first second)
    (right : Before second third) : Before first third :=
  trans_of_sizes String.lt_trans left right

theorem Before.irrefl (extension : Extension String) : ¬ Before extension extension := by
  rintro (shorter | ⟨_, smaller⟩)
  · exact Nat.lt_irrefl _ shorter
  · exact String.lt_irrefl _ smaller

/-- Distinct extensions are sorted strictly. -/
theorem pairwise_sorted {extensions : List (Extension String)} (distinct : extensions.Nodup)
    (valid : forall extension, extension ∈ extensions ->
      forall label, label ∈ extension -> Label.isValid label = true) :
    (sorted extensions).Pairwise Before := by
  have perm := sorted_perm extensions
  refine ((pairwise_precedes_sorted extensions).and (perm.nodup_iff.mpr distinct)).imp_of_mem ?_
  rintro left right first second ⟨precedes, different⟩
  rcases precedes_iff.mp precedes with shorter | ⟨sizes, smaller⟩
  · exact .inl shorter
  · refine .inr ⟨sizes, Classical.byContradiction fun notSmaller => different ?_⟩
    exact eq_of_text_eq (valid left (perm.mem_iff.mp first)) (valid right (perm.mem_iff.mp second))
      (String.le_antisymm smaller (String.not_lt.mp notSmaller))

-- The brace that ends a written form is greater than any letter.
example : sorted [["a"], [], ["ab"]] = [[], ["ab"], ["a"]] := by cbv

/-- Strictly ordered lists of the same extensions are equal. -/
theorem eq_of_pairwise_before {first second : List (Extension String)}
    (ordered : first.Pairwise Before) (ordered' : second.Pairwise Before)
    (same : forall extension, extension ∈ first ↔ extension ∈ second) : first = second := by
  have : Std.Irrefl Before := ⟨Before.irrefl⟩
  have : Std.Antisymm Before :=
    ⟨fun _ _ left right => absurd (left.trans right) (Before.irrefl _)⟩
  exact ordered.eq_of_mem_iff ordered' same

end Extension

end Argumentation
