import Argumentation.Proofs.Sat.Narrowing

/-!
# Opposite literals as words

A variable is an unsigned word and a literal a signed one of the same width. A variable below
`2 ^ 63` has a positive and a negative literal, which are opposite to each other. A larger variable
is taken for the one that it lacks to `2 ^ 64`: what should be its positive literal is the negative
literal of that variable. The least word is a literal that has no opposite.
-/

namespace Argumentation.Sat

/-- The integers of a type. -/
def WordType.Contains : WordType -> Int -> Prop
  | .unsigned bits, value => 0 <= value ∧ value < 2 ^ bits
  | .signed bits, value => -2 ^ (bits - 1) <= value ∧ value < 2 ^ (bits - 1)

/-- The types of integers that literals are built from. -/
def literalTypes : List WordType :=
  [.signed 64, .signed 32]

/-- The types of integers that variables are built from. -/
def variableTypes : List WordType :=
  [.unsigned 64, .unsigned 32] ++ literalTypes

/-- Literals are signed words of 64 bits. -/
theorem WordType.Contains.of_literalType {type : WordType} (chosen : type ∈ literalTypes)
    {value : Int} (contains : type.Contains value) : -2 ^ 63 <= value ∧ value < 2 ^ 63 := by
  simp only [literalTypes, List.mem_cons, List.not_mem_nil, or_false] at chosen
  rcases chosen with rfl | rfl <;> simp only [Contains] at contains <;> omega

/-- Variables are unsigned words of 64 bits. -/
theorem WordType.Contains.of_variableType {type : WordType} (chosen : type ∈ variableTypes)
    {value : Int} (contains : type.Contains value) : value < 2 ^ 64 := by
  rcases List.mem_append.mp chosen with unsigned | signed
  · simp only [List.mem_cons, List.not_mem_nil, or_false] at unsigned
    rcases unsigned with rfl | rfl <;> simp only [Contains] at contains <;> omega
  · have bounds := contains.of_literalType signed
    omega

theorem leastSigned_64 : leastSigned 64 = -2 ^ 63 := by
  decide

theorem wrapSigned_64_of_lt {value : Int} (positive : 0 < value) (small : value < 2 ^ 63) :
    wrapSigned 64 value = value := by
  rw [wrapSigned_succ 63]
  split <;> omega

/-- The upper half of the unsigned words are read as negative ones. -/
theorem wrapSigned_64_of_le {value : Int} (large : 2 ^ 63 <= value) (bounded : value < 2 ^ 64) :
    wrapSigned 64 value = value - 2 ^ 64 := by
  rw [wrapSigned_succ 63]
  split <;> omega

namespace WordLiteral

/-- A literal whose opposite has the same variable and the other sign, and is opposite to it. -/
def IsReversible (literal : WordLiteral) : Prop :=
  ∃ opposite, literal.negate? = some opposite ∧ opposite.var = literal.var ∧
    opposite.isPositive = !literal.isPositive ∧ opposite.negate? = some literal

theorem ofInt?_eq_some_iff {value : Int} {literal : WordLiteral} :
    ofInt? value = some literal ↔ value ≠ 0 ∧ literal = ⟨value⟩ := by
  simp [ofInt?, eq_comm]

theorem negate?_of_ne {value : Int} (nonzero : value ≠ 0) (inner : value ≠ -2 ^ 63) :
    negate? ⟨value⟩ = some ⟨-value⟩ := by
  rw [negate?, leastSigned_64, if_neg inner]
  exact ofInt?_eq_some_iff.mpr ⟨neg_ne_zero.mpr nonzero, rfl⟩

theorem negate?_least : negate? ⟨-2 ^ 63⟩ = none :=
  if_pos leastSigned_64.symm

/-- Every literal but the least word is reversible. -/
theorem isReversible_iff {value : Int} (nonzero : value ≠ 0) (small : value < 2 ^ 63) :
    IsReversible ⟨value⟩ ↔ value ≠ -2 ^ 63 := by
  constructor
  · rintro ⟨opposite, negated, _⟩ rfl
    rw [negate?_least] at negated
    cases negated
  · intro inner
    refine ⟨⟨-value⟩, negate?_of_ne nonzero inner, ?_, ?_, ?_⟩
    · simp [var]
    · simp only [isPositive]
      by_cases positive : 0 < value <;> simp [positive] <;> omega
    · rw [negate?_of_ne (by omega) (by omega), neg_neg]

end WordLiteral

namespace WordVariable

/-- A variable with a positive and a negative literal, which are opposite to each other. -/
def IsSigned (var : WordVariable) : Prop :=
  ∃ positive negative, var.pos? = some positive ∧ var.neg? = some negative ∧
    positive.isPositive = true ∧ negative.isPositive = false ∧
    positive.var = var ∧ negative.var = var ∧
    positive.negate? = some negative ∧ negative.negate? = some positive

/-- The variable of an integer has its number. -/
theorem ofInt?_eq_some_iff {type : WordType} {value : Int} (contains : type.Contains value)
    {var : WordVariable} : ofInt? type value = some var ↔ 0 < value ∧ var.index = value := by
  obtain ⟨index⟩ := var
  cases type with
  | unsigned bits =>
    have nonneg : 0 <= value := contains.1
    simp only [ofInt?, Option.ite_none_left_eq_some, Option.some.injEq, mk.injEq]
    omega
  | signed bits =>
    simp only [ofInt?, Option.ite_none_left_eq_some, Option.some.injEq, mk.injEq]
    omega

section Literals

variable {var : WordVariable}

/-- The literals of a small variable are its number and the opposite number. -/
theorem literals_of_lt (positive : 0 < var.index) (small : var.index < 2 ^ 63) :
    var.pos? = some ⟨var.index⟩ ∧ var.neg? = some ⟨-var.index⟩ := by
  have pos : var.pos? = some ⟨var.index⟩ := by
    rw [pos?, wrapSigned_64_of_lt (by omega) (by omega), WordLiteral.ofInt?_eq_some_iff]
    exact ⟨by omega, rfl⟩
  refine ⟨pos, ?_⟩
  rw [neg?, pos, Option.bind_some, WordLiteral.negate?_of_ne (by omega) (by omega)]

/-- A large variable is taken for the one that it lacks to `2 ^ 64`, with the other signs. -/
theorem literals_of_le (large : 2 ^ 63 <= var.index) (bounded : var.index < 2 ^ 64) :
    var.pos? = some ⟨var.index - 2 ^ 64⟩ ∧
      var.neg? = if var.index = 2 ^ 63 then none else some ⟨2 ^ 64 - var.index⟩ := by
  have pos : var.pos? = some ⟨var.index - 2 ^ 64⟩ := by
    rw [pos?, wrapSigned_64_of_le (by omega) (by omega), WordLiteral.ofInt?_eq_some_iff]
    exact ⟨by omega, rfl⟩
  refine ⟨pos, ?_⟩
  rw [neg?, pos, Option.bind_some]
  split
  · rename_i least
    have code : (var.index : Int) - 2 ^ 64 = -2 ^ 63 := by omega
    rw [code, WordLiteral.negate?_least]
  · rw [WordLiteral.negate?_of_ne (by omega) (by omega), neg_sub]

/-- The small variables are those whose literals have the signs that they should. -/
theorem isSigned_iff (positive : 0 < var.index) (bounded : var.index < 2 ^ 64) :
    var.IsSigned ↔ var.index < 2 ^ 63 := by
  constructor
  · rintro ⟨literal, _, found, _, sign, _⟩
    by_contra large
    rw [(literals_of_le (by omega) bounded).1, Option.some.injEq] at found
    simp only [← found, WordLiteral.isPositive, decide_eq_true_eq] at sign
    omega
  · intro small
    obtain ⟨pos, neg⟩ := literals_of_lt positive small
    refine ⟨_, _, pos, neg, ?_, ?_, ?_, ?_, ?_, ?_⟩
    · simpa [WordLiteral.isPositive] using positive
    · simp [WordLiteral.isPositive]
    · simp [WordLiteral.var]
    · simp [WordLiteral.var]
    · rw [WordLiteral.negate?_of_ne (by omega) (by omega)]
    · rw [WordLiteral.negate?_of_ne (by omega) (by omega), neg_neg]

end Literals

end WordVariable

/-- An integer of any type builds a variable when it is positive, and one of a signed type builds a
literal when it is not zero. The variable has a positive and a negative literal exactly when it is
below `2 ^ 63`; a larger one has the literals of another variable with the other signs, or only one
of them. The literal has an opposite exactly when it is not the least word. -/
theorem opposites_exact {type : WordType} (chosen : type ∈ variableTypes) {value : Int}
    (contains : type.Contains value) :
    ((WordVariable.ofInt? type value).isSome ↔ 0 < value) ∧
    (forall var, WordVariable.ofInt? type value = some var ->
      var.index = value ∧ (var.IsSigned ↔ value < 2 ^ 63) ∧
      (2 ^ 63 <= value -> var.pos? = some ⟨value - 2 ^ 64⟩ ∧
        var.neg? = if value = 2 ^ 63 then none else some ⟨2 ^ 64 - value⟩)) ∧
    (type ∈ literalTypes -> ((WordLiteral.ofInt? value).isSome ↔ value ≠ 0) ∧
      forall literal, WordLiteral.ofInt? value = some literal ->
        literal.code = value ∧ (literal.IsReversible ↔ value ≠ -2 ^ 63) ∧
        (value = -2 ^ 63 -> literal.negate? = none)) := by
  refine ⟨?_, fun var built => ?_, fun signed => ⟨?_, fun literal built => ?_⟩⟩
  · simp only [Option.isSome_iff_exists, WordVariable.ofInt?_eq_some_iff contains]
    refine ⟨fun ⟨_, positive, _⟩ => positive, fun positive => ?_⟩
    exact ⟨⟨value.toNat⟩, positive, Int.toNat_of_nonneg (by omega)⟩
  · have bounded := contains.of_variableType chosen
    obtain ⟨positive, index⟩ := (WordVariable.ofInt?_eq_some_iff contains).mp built
    refine ⟨index, ?_, fun large => ?_⟩
    · rw [WordVariable.isSigned_iff (by omega) (by omega)]
      omega
    · obtain ⟨pos, neg⟩ := @WordVariable.literals_of_le var (by omega) (by omega)
      rw [pos, neg, index]
      exact ⟨rfl, if_congr (by omega) rfl rfl⟩
  · simp only [Option.isSome_iff_exists, WordLiteral.ofInt?_eq_some_iff]
    exact ⟨fun ⟨_, nonzero, _⟩ => nonzero, fun nonzero => ⟨_, nonzero, rfl⟩⟩
  · obtain ⟨nonzero, rfl⟩ := WordLiteral.ofInt?_eq_some_iff.mp built
    refine ⟨rfl, WordLiteral.isReversible_iff nonzero (contains.of_literalType signed).2, ?_⟩
    rintro rfl
    exact WordLiteral.negate?_least

/-- The variables and the literals next to the limits. -/
theorem opposites_exact_edges :
    (.unsigned 64 ∈ variableTypes ∧ (WordType.unsigned 64).Contains 9223372036854775807 ∧
      WordVariable.IsSigned ⟨9223372036854775807⟩) ∧
    ((WordType.unsigned 64).Contains 9223372036854775808 ∧
      WordVariable.pos? ⟨9223372036854775808⟩ = some ⟨-9223372036854775808⟩ ∧
      WordVariable.neg? ⟨9223372036854775808⟩ = none) ∧
    (.signed 64 ∈ literalTypes ∧ (WordType.signed 64).Contains (-9223372036854775807) ∧
      WordLiteral.IsReversible ⟨-9223372036854775807⟩) ∧
    (WordType.signed 64).Contains (-9223372036854775808) ∧
      WordLiteral.negate? ⟨-9223372036854775808⟩ = none := by
  have unsigned : .unsigned 64 ∈ variableTypes := by simp [variableTypes]
  have signed : .signed 64 ∈ literalTypes := by simp [literalTypes]
  have also : .signed 64 ∈ variableTypes := List.mem_append_right _ signed
  have below : (WordType.unsigned 64).Contains 9223372036854775807 := by simp [WordType.Contains]
  have atLimit : (WordType.unsigned 64).Contains 9223372036854775808 := by simp [WordType.Contains]
  have above : (WordType.signed 64).Contains (-9223372036854775807) := by simp [WordType.Contains]
  have least : (WordType.signed 64).Contains (-9223372036854775808) := by simp [WordType.Contains]
  obtain ⟨_, first, _⟩ := opposites_exact unsigned below
  obtain ⟨_, second, _⟩ := opposites_exact unsigned atLimit
  obtain ⟨_, _, third⟩ := opposites_exact also above
  obtain ⟨_, _, fourth⟩ := opposites_exact also least
  obtain ⟨pos, neg⟩ := (second _ rfl).2.2 (by decide)
  exact ⟨⟨unsigned, below, (first _ rfl).2.1.mpr (by decide)⟩, ⟨atLimit, pos, neg⟩,
    ⟨signed, above, ((third signed).2 _ rfl).2.1.mpr (by decide)⟩, least,
    ((fourth signed).2 _ rfl).2.2 rfl⟩

/-- The greatest variable has the literals of the first one, with the other signs, and the least
literal has no opposite. -/
theorem opposites_exchanged :
    (WordType.unsigned 64).Contains 18446744073709551615 ∧
      WordVariable.ofInt? (.unsigned 64) 18446744073709551615 = some ⟨18446744073709551615⟩ ∧
      WordVariable.pos? ⟨18446744073709551615⟩ = some ⟨-1⟩ ∧
      WordVariable.neg? ⟨18446744073709551615⟩ = some ⟨1⟩ ∧
      ¬ WordVariable.IsSigned ⟨18446744073709551615⟩ ∧
      (WordType.signed 64).Contains (-9223372036854775808) ∧
      WordLiteral.ofInt? (-9223372036854775808) = some ⟨-9223372036854775808⟩ ∧
      ¬ WordLiteral.IsReversible ⟨-9223372036854775808⟩ := by
  refine ⟨by simp [WordType.Contains], rfl, by decide, by decide, fun signed => ?_,
    by simp [WordType.Contains], rfl, fun reversible => ?_⟩
  · exact absurd ((WordVariable.isSigned_iff (by decide) (by decide)).mp signed) (by decide)
  · exact (WordLiteral.isReversible_iff (by decide) (by decide)).mp reversible rfl

end Argumentation.Sat
