import Argumentation.Sat.Literal

/-!
# Assignments

What an engine says about the variables up to some bound: each is true, false or left open.
Variables above the bound are open.
-/

namespace Argumentation.Sat

/-- The values of the variables 0, 1, 2 and so on. -/
structure Assignment where
  values : List (Option Bool)
  deriving DecidableEq

namespace Assignment

/-- The value of a variable, if it is assigned. -/
def valueOf (assignment : Assignment) (var : Nat) : Option Bool :=
  assignment.values[var]?.join

/-- The total assignment of the variables up to a bound. -/
def ofValuation (bound : Nat) (valuation : Nat -> Bool) : Assignment :=
  ⟨(List.range (bound + 1)).map fun var => some (valuation var)⟩

/-- The assignment given by one signed number for each of the variables from one up to their
count. -/
def ofCodes (codes : List Int) : Assignment :=
  ⟨(List.range (codes.length + 1)).map fun var =>
    (codes.find? fun code => code.natAbs = var).map fun code => 0 < code⟩

/-- Whether an assignment makes a literal true; an open variable makes none true. -/
def makesTrue (assignment : Assignment) (literal : Literal) : Bool :=
  assignment.valueOf literal.var = some literal.positive

/-- Whether an assignment makes some literal of a clause true. -/
def satisfies (assignment : Assignment) (clause : Clause) : Bool :=
  clause.any assignment.makesTrue

theorem valueOf_ofValuation {bound : Nat} {var : Nat} (valuation : Nat -> Bool)
    (inBound : var <= bound) : (ofValuation bound valuation).valueOf var = some (valuation var) := by
  simp [ofValuation, valueOf, Nat.lt_succ_of_le inBound]

/-- A total assignment makes the literals of its variables true that its valuation does. -/
theorem makesTrue_ofValuation {bound : Nat} {literal : Literal} (valuation : Nat -> Bool)
    (inBound : literal.var <= bound) :
    (ofValuation bound valuation).makesTrue literal = literal.holds valuation := by
  simp only [makesTrue, valueOf_ofValuation valuation inBound, Literal.holds]
  cases valuation literal.var <;> cases literal.positive <;> rfl

end Assignment

end Argumentation.Sat
