import Lox.Binary64.Round

/-!
# Decimals

A decimal is a coefficient times a power of ten. A numeral, digits with at most one point among
them, denotes one, and a decimal has a nearest double.
-/

namespace Lox

/-- The number `coefficient * 10 ^ exponent`. -/
structure Decimal where
  /-- All digits, as one number. -/
  coefficient : Nat
  /-- The power of ten of the last digit. -/
  exponent : Int
  deriving DecidableEq

namespace Decimal

/-- The value of a digit. -/
def digitValue (c : Char) : Nat := c.toNat - '0'.toNat

/-- The number that a row of digits spells. -/
def ofDigits (digits : List Char) : Nat := digits.foldl (fun n c => 10 * n + digitValue c) 0

/-- The digits that spell a number, without leading zeros. -/
def digitsOf (n : Nat) : List Char := Nat.toDigits 10 n

/-- The part of a numeral before its point. -/
def wholePart (numeral : List Char) : List Char := numeral.takeWhile (· != '.')

/-- The part of a numeral after its point, or nothing. -/
def fractionPart (numeral : List Char) : List Char := (numeral.dropWhile (· != '.')).drop 1

/-- The decimal that a numeral denotes. -/
def ofNumeral (numeral : List Char) : Decimal :=
  ⟨ofDigits (wholePart numeral ++ fractionPart numeral), -((fractionPart numeral).length : Int)⟩

/-- The double nearest to a decimal. -/
def toBinary64 (d : Decimal) : Binary64 :=
  if 0 ≤ d.exponent then Binary64.ofRatio (d.coefficient * Nat.pow 10 d.exponent.toNat) 1
  else Binary64.ofRatio d.coefficient (Nat.pow 10 (-d.exponent).toNat)

/-- A decimal rounds to no negative double. -/
theorem toBinary64_negative (d : Decimal) : d.toBinary64.negative = false := by
  unfold toBinary64
  split <;> exact Binary64.ofRatio_negative ..

end Decimal

end Lox
