/-!
# Clauses

Propositional variables are numbered. A literal is a variable with a sign, and a clause is the
disjunction of its literals. The code of a literal is the number of its variable, negated when the
literal is; since zero is its own opposite, variables in use are numbered from one.
-/

namespace Argumentation.Sat

/-- A variable or its negation. -/
structure Literal where
  var : Nat
  positive : Bool
  deriving DecidableEq

namespace Literal

/-- The literal that is true when the variable is. -/
def pos (var : Nat) : Literal := ⟨var, true⟩

/-- The literal that is true when the variable is false. -/
def neg (var : Nat) : Literal := ⟨var, false⟩

/-- The opposite literal. -/
def negate (literal : Literal) : Literal := ⟨literal.var, !literal.positive⟩

/-- The signed number that stands for a literal. -/
def code (literal : Literal) : Int :=
  if literal.positive then literal.var else -literal.var

/-- The literal of a signed number. -/
def ofCode (code : Int) : Literal := ⟨code.natAbs, 0 < code⟩

/-- Whether a literal is true when the variables have the given values. -/
def holds (valuation : Nat -> Bool) (literal : Literal) : Bool :=
  valuation literal.var == literal.positive

@[simp]
theorem negate_negate (literal : Literal) : literal.negate.negate = literal := by
  simp [negate]

@[simp]
theorem holds_negate (valuation : Nat -> Bool) (literal : Literal) :
    literal.negate.holds valuation = !literal.holds valuation := by
  cases positive : literal.positive <;> cases value : valuation literal.var <;>
    simp [negate, holds, positive, value]

end Literal

/-- A disjunction of literals. -/
abbrev Clause := List Literal

namespace Clause

/-- Whether some literal of a clause is true. -/
def holds (valuation : Nat -> Bool) (clause : Clause) : Bool :=
  clause.any (Literal.holds valuation)

@[simp]
theorem holds_cons (valuation : Nat -> Bool) (literal : Literal) (clause : Clause) :
    holds valuation (literal :: clause) = (literal.holds valuation || holds valuation clause) := by
  simp [holds]

@[simp]
theorem holds_append (valuation : Nat -> Bool) (left right : Clause) :
    holds valuation (left ++ right) = (holds valuation left || holds valuation right) := by
  simp [holds]

/-- The clause of the opposite literals says that not all the literals are true. -/
@[simp]
theorem holds_map_negate (valuation : Nat -> Bool) (literals : List Literal) :
    holds valuation (literals.map Literal.negate) = !literals.all (Literal.holds valuation) := by
  induction literals with
  | nil => rfl
  | cons literal rest ih => simp [ih]

end Clause

end Argumentation.Sat
