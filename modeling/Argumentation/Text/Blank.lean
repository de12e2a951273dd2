/-!
# Blank characters

A character is blank when it has the Unicode property `White_Space`: the ASCII tabulations,
line ends and space, the next-line control, and the spaces and separators of the other blocks.
Zero-width characters and the byte order mark are not blank.
-/

namespace Argumentation.Text

/-- Whether the code point of a character lies in one of the closed ranges. -/
def inRanges (ranges : List (Nat × Nat)) (character : Char) : Bool :=
  ranges.any fun range => range.1 <= character.toNat && character.toNat <= range.2

/-- The code points of the property `White_Space`, as closed ranges in increasing order. -/
def blankRanges : List (Nat × Nat) :=
  [(0x09, 0x0D), (0x20, 0x20), (0x85, 0x85), (0xA0, 0xA0), (0x1680, 0x1680), (0x2000, 0x200A),
    (0x2028, 0x2029), (0x202F, 0x202F), (0x205F, 0x205F), (0x3000, 0x3000)]

/-- Whether a character is blank. -/
def isBlank (character : Char) : Bool :=
  inRanges blankRanges character

/-- The ASCII white space is blank. -/
theorem isBlank_of_isWhitespace {character : Char} (white : character.isWhitespace) :
    isBlank character := by
  simp only [Char.isWhitespace, Bool.or_eq_true, decide_eq_true_eq] at white
  rcases white with ((rfl | rfl) | rfl) | rfl <;> decide

/-- The text without its leading blanks. -/
def skipBlanks (text : List Char) : List Char :=
  text.dropWhile isBlank

/-- The text without its trailing blanks. -/
def dropTrailingBlanks (text : List Char) : List Char :=
  (skipBlanks text.reverse).reverse

/-- The text without the blanks around it. -/
def trim (text : List Char) : List Char :=
  dropTrailingBlanks (skipBlanks text)

/-- The maximal runs of characters that are not blank, in order. -/
def words (text : List Char) : List (List Char) :=
  (text.splitOnP isBlank).filter fun word => !word.isEmpty

end Argumentation.Text
