import Argumentation.Sat.Literal

/-!
# Literals as machine words

Outside the solver a variable is a non-zero unsigned word of 64 bits and a literal a non-zero
signed one. Going from one to the other reinterprets the bits, so the largest variables have
positive literals that are negative words, and the most negative word has no opposite.

The engine itself reads words of 32 bits. A literal keeps its low 32 bits on the way there; it is
refused when these are zero or the most negative word, for which the engine has no variable.
-/

namespace Argumentation.Sat

/-- A type of machine integers. -/
inductive WordType where
  | unsigned (bits : Nat)
  | signed (bits : Nat)

/-- The integer with the same low `bits` bits, read as a signed word. -/
def wrapSigned (bits : Nat) (value : Int) : Int :=
  value.bmod (1 <<< bits)

/-- The most negative signed word. -/
def leastSigned (bits : Nat) : Int :=
  -((1 <<< (bits - 1) : Nat) : Int)

/-- A non-zero unsigned word of 64 bits that numbers a variable. -/
structure WordVariable where
  index : Nat
  deriving DecidableEq

/-- A non-zero signed word of 64 bits that stands for a literal. -/
structure WordLiteral where
  code : Int
  deriving DecidableEq

namespace WordLiteral

/-- The literal of an integer; zero has none. -/
def ofInt? (value : Int) : Option WordLiteral :=
  if value = 0 then none else some ⟨value⟩

/-- The opposite literal; the most negative word has none. -/
def negate? (literal : WordLiteral) : Option WordLiteral :=
  if literal.code = leastSigned 64 then none else ofInt? (-literal.code)

/-- The variable of a literal. -/
def var (literal : WordLiteral) : WordVariable :=
  ⟨literal.code.natAbs⟩

/-- Whether a literal is the positive one of its variable. -/
def isPositive (literal : WordLiteral) : Bool :=
  0 < literal.code

/-- The literal that the engine reads. -/
def narrow? (literal : WordLiteral) : Option Literal :=
  let code := wrapSigned 32 literal.code
  if code = 0 ∨ code = leastSigned 32 then none else some (Literal.ofCode code)

end WordLiteral

namespace WordVariable

/-- The variable of an integer of a word type; neither zero nor a negative integer has one. -/
def ofInt? (type : WordType) (value : Int) : Option WordVariable :=
  match type with
  | .unsigned _ => if value = 0 then none else some ⟨value.toNat⟩
  | .signed _ => if value <= 0 then none else some ⟨value.toNat⟩

/-- The literal with the same bits as the variable. -/
def pos? (var : WordVariable) : Option WordLiteral :=
  WordLiteral.ofInt? (wrapSigned 64 var.index)

/-- The opposite of the literal with the same bits as the variable. -/
def neg? (var : WordVariable) : Option WordLiteral :=
  var.pos?.bind WordLiteral.negate?

end WordVariable

end Argumentation.Sat
