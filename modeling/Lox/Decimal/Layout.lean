import Lox.Decimal.Shortest

/-!
# Written numbers

A double is written in two ways, both from its shortest decimal. `Binary64.display` is the form of
structural dumps: positional while the exponent of the first digit is at least -4 and below 16, and
with an exponent of at least two digits otherwise. `Binary64.numeral` is the form of program text,
which has neither exponents nor a fraction without digits: whole numbers have all their digits and
no point, and infinity is the least power of ten with no finite double.
-/

namespace Lox

/-- A decimal as its significant digits and the place of the point, counted from before the first of
them. -/
structure Decimal.Digits where
  /-- The digits, with no zeros at the end. -/
  digits : List Char
  /-- How many places the point stands to the right of the first digit's left edge. -/
  point : Int

namespace Decimal

/-- A row of digits without the zeros at its end. -/
def dropTrailingZeros (digits : List Char) : List Char :=
  (digits.reverse.dropWhile (· == '0')).reverse

/-- The significant digits of a decimal. -/
def significant (d : Decimal) : Digits :=
  let all := digitsOf d.coefficient
  ⟨dropTrailingZeros all, all.length + d.exponent⟩

namespace Digits

/-- Digits without an exponent; `.0` stands after a whole number. -/
def positional (d : Digits) : List Char :=
  if d.point ≤ 0 then '0' :: '.' :: (List.replicate (-d.point).toNat '0' ++ d.digits)
  else if d.digits.length ≤ d.point.toNat then
    d.digits ++ List.replicate (d.point.toNat - d.digits.length) '0' ++ ['.', '0']
  else d.digits.take d.point.toNat ++ '.' :: d.digits.drop d.point.toNat

/-- An exponent: a sign and at least two digits. -/
def exponentText (e : Int) : List Char :=
  let digits := digitsOf e.natAbs
  (if e < 0 then '-' else '+') :: (List.replicate (2 - digits.length) '0' ++ digits)

/-- One digit before the point, and an exponent; a single digit has no point. -/
def scientific (d : Digits) : List Char :=
  let fraction := d.digits.drop 1
  d.digits.take 1 ++ (if fraction.isEmpty then [] else '.' :: fraction) ++
    'e' :: exponentText (d.point - 1)

end Digits

end Decimal

namespace Binary64

/-- A minus sign for the doubles that have one. -/
def signText (x : Binary64) : List Char := if x.negative then ['-'] else []

/-- The form of structural dumps. -/
def display (x : Binary64) : List Char :=
  if x.isNaN then ['n', 'a', 'n']
  else x.signText ++
    if x.isInfinite then ['i', 'n', 'f']
    else if x.magnitude = 0 then ['0', '.', '0']
    else
      let d := x.shortest.significant
      if -3 ≤ d.point ∧ d.point ≤ 16 then d.positional else d.scientific

/-- Whether a finite double is a whole number. -/
def isWhole (x : Binary64) : Bool := x.units % Nat.pow 2 1074 == 0

/-- One and 309 zeros: the least power of ten that is nearer to infinity than to any double. -/
def infiniteNumeral : List Char := '1' :: List.replicate 309 '0'

/-- The form of program text. Neither infinity nor zero shows its sign. -/
def numeral (x : Binary64) : List Char :=
  if x.isNaN then ['N', 'a', 'N']
  else if x.isInfinite then infiniteNumeral
  else if x.magnitude = 0 then ['0']
  else x.signText ++
    if x.isWhole then Decimal.digitsOf (x.units / Nat.pow 2 1074)
    else x.shortest.significant.positional

end Binary64

end Lox
