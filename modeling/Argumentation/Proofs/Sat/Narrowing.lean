import Argumentation.Sat.Solver
import Mathlib.Algebra.Ring.Int.Defs
import Mathlib.Algebra.Ring.Nat

/-!
# Narrowed literals

A solver takes literals that are integers of any size, and its engine reads their low 32 bits. A
literal between the least and the greatest word is read as it is given. A multiple of `2 ^ 31` is
refused. Any other literal is read as another one, without notice, so the engine may be asked about
other variables than the caller is.
-/

namespace Argumentation.Sat

/-- The literal that the engine reads for an integer. -/
def Literal.narrowed (code : Int) : Literal :=
  .ofCode (wrapSigned 32 code)

/-- Literals that have a word of 32 bits, with its opposite. -/
def Literal.IsNarrow (literal : Literal) : Prop :=
  0 < literal.var ∧ literal.var < 2 ^ 31

/-- An integer that the engine cannot read: its low bits are zero or the least word. -/
abbrev IsRefused (code : Int) : Prop :=
  (2 : Int) ^ 31 ∣ code

/-- The lower half of the remainders are themselves, and the upper half are negative. -/
theorem wrapSigned_succ (bits : Nat) (code : Int) :
    wrapSigned (bits + 1) code =
      if code % 2 ^ (bits + 1) < 2 ^ bits then code % 2 ^ (bits + 1)
      else code % 2 ^ (bits + 1) - 2 ^ (bits + 1) := by
  have size : ((1 <<< (bits + 1) : Nat) : Int) = 2 ^ bits * 2 := by
    simp [Nat.one_shiftLeft, pow_succ]
  have half : ((2 : Int) ^ bits * 2 + 1) / 2 = 2 ^ bits := by omega
  simp only [wrapSigned, Int.bmod, size, half, pow_succ]

theorem wrapSigned_eq (code : Int) :
    wrapSigned 32 code =
      if code % 2 ^ 32 < 2 ^ 31 then code % 2 ^ 32 else code % 2 ^ 32 - 2 ^ 32 :=
  wrapSigned_succ 31 code

theorem wrapSigned_of_lt {code : Int} (fits : code.natAbs < 2 ^ 31) :
    wrapSigned 32 code = code := by
  rw [wrapSigned_eq]
  split <;> omega

theorem wrapSigned_refused_iff {code : Int} :
    wrapSigned 32 code = 0 ∨ wrapSigned 32 code = leastSigned 32 ↔ IsRefused code := by
  have least : leastSigned 32 = - 2 ^ 31 := by decide
  rw [wrapSigned_eq, least]
  split <;> omega

theorem natAbs_wrapSigned_lt {code : Int} (read : ¬ IsRefused code) :
    0 < (wrapSigned 32 code).natAbs ∧ (wrapSigned 32 code).natAbs < 2 ^ 31 := by
  rw [wrapSigned_eq]
  split <;> omega

theorem narrow?_eq (code : Int) : (WordLiteral.ofInt? code).bind WordLiteral.narrow? =
    if IsRefused code then none else some (.narrowed code) := by
  by_cases zero : code = 0
  · subst zero
    rfl
  · simp only [WordLiteral.ofInt?, if_neg zero, Option.bind_some, WordLiteral.narrow?,
      wrapSigned_refused_iff, Literal.narrowed]

/-- Integers are taken for one literal exactly when they agree in their low bits. -/
theorem Literal.narrowed_eq_iff {first second : Int} :
    narrowed first = narrowed second ↔ first % 2 ^ 32 = second % 2 ^ 32 := by
  simp only [narrowed, ofCode, Literal.mk.injEq, decide_eq_decide]
  constructor
  · rintro ⟨sizes, signs⟩
    have words : wrapSigned 32 first = wrapSigned 32 second := by omega
    rw [wrapSigned_eq, wrapSigned_eq] at words
    split at words <;> split at words <;> omega
  · intro same
    rw [wrapSigned_eq, wrapSigned_eq, same]
    exact ⟨rfl, Iff.rfl⟩

theorem Literal.narrowed_of_lt {code : Int} (fits : code.natAbs < 2 ^ 31) :
    narrowed code = ofCode code := by
  rw [narrowed, wrapSigned_of_lt fits]

/-- The literals of a call are read, or all of them are refused. -/
theorem Solver.narrowAll?_of_refused {codes : List Int} {code : Int} (member : code ∈ codes)
    (refused : IsRefused code) : narrowAll? codes = none := by
  induction codes with
  | nil => cases member
  | cons first rest ih =>
    rw [narrowAll?, List.mapM_cons, narrow?_eq]
    by_cases here : IsRefused first
    · rw [if_pos here]
      rfl
    · have other : code ≠ first := fun same => here (same ▸ refused)
      rw [if_neg here, ← narrowAll?, ih (List.mem_of_ne_of_mem other member)]
      rfl

theorem Solver.narrowAll?_of_read {codes : List Int}
    (read : forall code, code ∈ codes -> ¬ IsRefused code) :
    narrowAll? codes = some (codes.map .narrowed) := by
  induction codes with
  | nil => rfl
  | cons first rest ih =>
    rw [narrowAll?, List.mapM_cons, narrow?_eq, if_neg (read first List.mem_cons_self),
      ← narrowAll?, ih fun code member => read code (List.mem_cons_of_mem _ member)]
    rfl

theorem Literal.natAbs_code (literal : Literal) : literal.code.natAbs = literal.var := by
  simp only [code]
  split <;> simp

theorem Literal.ofCode_code {literal : Literal} (positive : 0 < literal.var) :
    ofCode literal.code = literal := by
  obtain ⟨var, sign⟩ := literal
  rw [ofCode, natAbs_code]
  cases sign <;> simp [code, positive]

/-- Narrow literals are read as they are. -/
theorem Solver.narrowAll?_of_isNarrow {literals : List Literal}
    (narrow : forall literal, literal ∈ literals -> literal.IsNarrow) :
    narrowAll? (literals.map Literal.code) = some literals := by
  have fits : forall literal, literal ∈ literals -> literal.code.natAbs < 2 ^ 31 :=
    fun literal member => literal.natAbs_code ▸ (narrow literal member).2
  have read : forall code, code ∈ literals.map Literal.code -> ¬ IsRefused code := by
    intro code member refused
    obtain ⟨literal, listed, rfl⟩ := List.mem_map.mp member
    have low := (narrow literal listed).1
    have high := fits literal listed
    rw [← literal.natAbs_code] at low
    omega
  rw [narrowAll?_of_read read, List.map_map, Option.some.injEq]
  refine (List.map_congr_left fun literal member => ?_).trans (List.map_id literals)
  rw [Function.comp_apply, Literal.narrowed_of_lt (fits literal member),
    Literal.ofCode_code (narrow literal member).1, id]

end Argumentation.Sat
