import Argumentation.Report

/-!
# Numerals

Unsigned numbers of 64 bits are written in decimal, with an optional plus sign before the digits.
The digits are taken from the left, and the first one that is not a digit or that makes the number
too large decides the fault.
-/

namespace Argumentation.Text

/-- The value of an ASCII digit. -/
def digitValue? (character : Char) : Option Nat :=
  if character.isDigit then some (character.toNat - '0'.toNat) else none

/-- The number whose leading digits have the given value. -/
def readDigits (value : Nat) : List Char -> Except TextFault Nat
  | [] => .ok value
  | character :: rest =>
    match digitValue? character with
    | none => .error .invalidDigit
    | some digit =>
      if value * 10 + digit < 2 ^ 64 then readDigits (value * 10 + digit) rest
      else .error .numberTooLarge

/-- Reads an unsigned number of 64 bits. -/
def readUnsigned (text : String) : Except TextFault Nat :=
  match text.toList with
  | [] => .error .emptyNumber
  | ['+'] => .error .invalidDigit
  | '+' :: digits => readDigits 0 digits
  | digits => readDigits 0 digits

end Argumentation.Text
