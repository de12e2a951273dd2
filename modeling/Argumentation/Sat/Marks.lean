import Argumentation.Sat.Engine

/-!
# Marks

A set of literals with a membership test in constant time: an array with one slot for each sign of
each variable. Main statement: a literal is marked exactly when it is one of the given ones.
-/

namespace Argumentation.Sat

/-- The slot of a literal. -/
def Literal.slot (literal : Literal) : Nat :=
  2 * literal.var + literal.positive.toNat

theorem Literal.slot_inj {left right : Literal} : left.slot = right.slot ↔ left = right := by
  obtain ⟨leftVar, leftPositive⟩ := left
  obtain ⟨rightVar, rightPositive⟩ := right
  cases leftPositive <;> cases rightPositive <;> simp [slot] <;> omega

/-- A set of literals. -/
structure Marks where
  slots : Array Bool

namespace Marks

/-- Adds a literal whose slot exists. -/
def mark (marks : Marks) (literal : Literal) : Marks :=
  ⟨marks.slots.setIfInBounds literal.slot true⟩

/-- The set of the given literals. -/
def ofList (literals : List Literal) : Marks :=
  literals.foldl mark ⟨Array.replicate (2 * greatestVariable literals + 2) false⟩

/-- Whether a literal is in the set. -/
def contains (marks : Marks) (literal : Literal) : Bool :=
  marks.slots.getD literal.slot false

theorem contains_mark (marks : Marks) (literal other : Literal)
    (room : literal.slot < marks.slots.size) :
    (marks.mark literal).contains other = (decide (other = literal) || marks.contains other) := by
  simp only [contains, mark, Array.getD_eq_getD_getElem?, Array.getElem?_setIfInBounds]
  by_cases same : literal = other
  · subst same
    simp [room]
  · simp [Literal.slot_inj, same, Ne.symm same]

theorem contains_foldl_mark (literals : List Literal) (marks : Marks) (other : Literal)
    (room : forall literal, literal ∈ literals -> literal.slot < marks.slots.size) :
    (literals.foldl mark marks).contains other
      = (decide (other ∈ literals) || marks.contains other) := by
  induction literals generalizing marks with
  | nil => simp
  | cons literal rest ih =>
    have roomFirst := room literal List.mem_cons_self
    have roomRest : forall item, item ∈ rest -> item.slot < (marks.mark literal).slots.size := by
      intro item member
      simpa [mark] using room item (List.mem_cons_of_mem _ member)
    rw [List.foldl_cons, ih _ roomRest, contains_mark _ _ _ roomFirst]
    by_cases first : other = literal <;> by_cases later : other ∈ rest <;> simp [first, later]

theorem le_foldl_max (literals : List Literal) (start : Nat) :
    start <= literals.foldl (fun greatest literal => max greatest literal.var) start ∧
      forall literal, literal ∈ literals ->
        literal.var <= literals.foldl (fun greatest literal => max greatest literal.var) start := by
  induction literals generalizing start with
  | nil => simp
  | cons first rest ih =>
    obtain ⟨atLeast, covers⟩ := ih (max start first.var)
    refine ⟨by simp only [List.foldl_cons]; omega, ?_⟩
    intro literal member
    rcases List.mem_cons.mp member with rfl | later
    · simp only [List.foldl_cons]; omega
    · exact covers literal later

/-- A literal is in the set of the given ones exactly when it is one of them. -/
theorem contains_ofList (literals : List Literal) (other : Literal) :
    (ofList literals).contains other = decide (other ∈ literals) := by
  unfold ofList
  rw [contains_foldl_mark]
  · have blank : forall size : Nat,
        (⟨Array.replicate size false⟩ : Marks).contains other = false := by
      intro size
      simp only [contains, Array.getD_eq_getD_getElem?, Array.getElem?_replicate]
      split <;> rfl
    simp [blank]
  · intro literal member
    have bounded := (le_foldl_max literals 0).2 literal member
    have sign := Bool.toNat_le literal.positive
    simp only [Array.size_replicate, greatestVariable, Literal.slot]
    omega

end Marks

end Argumentation.Sat
