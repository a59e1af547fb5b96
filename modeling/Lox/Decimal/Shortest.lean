import Lox.Decimal.Basic

/-!
# The shortest decimal of a double

`Binary64.shortest` is the decimal with the fewest digits among those that round to a given double,
and the nearest of these. If any decimal on a grid of powers of ten rounds to the double, so does
one of the double's two neighbours on that grid, so for each number of digits only those two are
tried. Seventeen digits are always enough.
-/

namespace Lox

namespace Binary64

/-- The exponent of a positive double's first decimal digit. The least positive double is about
`4.9e-324`, so after scaling by `10 ^ 324` the count of digits before the point tells it. -/
def leadingExponent (x : Binary64) : Int :=
  (Decimal.digitsOf (x.units * Nat.pow 10 324 / Nat.pow 2 1074)).length - 325

/-- The absolute value of a double as a ratio, in multiples of `10 ^ exponent`. -/
def inGrid (x : Binary64) (exponent : Int) : Nat × Nat :=
  if 0 ≤ exponent then (x.units, Nat.pow 2 1074 * Nat.pow 10 exponent.toNat)
  else (x.units * Nat.pow 10 (-exponent).toNat, Nat.pow 2 1074)

/-- Of the whole numbers `below` and `below + 1` times a power of ten, the ones that round to a
double; `middle` where both do. -/
def choose? (x : Binary64) (exponent : Int) (below middle : Nat) : Option Decimal :=
  if (Decimal.mk below exponent).toBinary64 = x then
    if (Decimal.mk (below + 1) exponent).toBinary64 = x then some ⟨middle, exponent⟩
    else some ⟨below, exponent⟩
  else if (Decimal.mk (below + 1) exponent).toBinary64 = x then some ⟨below + 1, exponent⟩
  else none

/-- The decimal with the given exponent that is nearest to a non-negative double among its two
neighbours, if one of them rounds to it; of two equally near ones the even one. -/
def nearestInGrid? (x : Binary64) (exponent : Int) : Option Decimal :=
  let (num, den) := x.inGrid exponent
  x.choose? exponent (num / den) (roundHalfEven num den)

/-- The exact value of a non-negative finite double: each unit is `5 ^ 1074` times `10 ^ -1074`. -/
def exact (x : Binary64) : Decimal := ⟨x.units * Nat.pow 5 1074, -1074⟩

/-- The decimal with the fewest digits, at least `count` of them, that rounds to a non-negative
double; the exact value if more than `tries` counts were needed. -/
def shortestFrom (x : Binary64) (count : Nat) : (tries : Nat) → Decimal
  | 0 => x.exact
  | tries + 1 =>
    (x.nearestInGrid? (x.leadingExponent + 1 - count)).getD (shortestFrom x (count + 1) tries)

/-- The shortest decimal that rounds to the absolute value of a finite double. -/
def shortest (x : Binary64) : Decimal := shortestFrom { x with negative := false } 1 17

/-- The two neighbours of a positive number on a grid are its rounding candidates. -/
theorem roundHalfEven_eq_or (num den : Nat) :
    roundHalfEven num den = num / den ∨ roundHalfEven num den = num / den + 1 := by
  unfold roundHalfEven
  grind

/-- A decimal chosen between two neighbours rounds to the double. -/
theorem toBinary64_of_choose? {x : Binary64} {exponent : Int} {below middle : Nat} {d : Decimal}
    (between : middle = below ∨ middle = below + 1) (h : x.choose? exponent below middle = some d) :
    d.toBinary64 = x := by
  grind [choose?]

/-- A decimal found on a grid rounds to the double. -/
theorem toBinary64_of_nearestInGrid? {x : Binary64} {exponent : Int} {d : Decimal}
    (h : x.nearestInGrid? exponent = some d) : d.toBinary64 = x :=
  toBinary64_of_choose? (roundHalfEven_eq_or ..) h

end Binary64

end Lox
