import Lox.Binary64.Basic

/-!
# The nearest double

`ofRatio num den` is the double nearest to `num / den`, a tie going to the even neighbour, and
infinity when that is past the largest finite double. The quotient is cut after 53 significant bits,
or at the least unit if that comes first. Because neighbouring magnitudes are neighbouring numbers,
a carry out of the significand needs no case of its own.
-/

namespace Lox

/-- The whole number nearest to `num / den`, a tie going to the even one. -/
def roundHalfEven (num den : Nat) : Nat :=
  let floor := num / den
  let rest := num % den
  if 2 * rest < den then floor
  else if den < 2 * rest then floor + 1
  else if floor % 2 = 0 then floor
  else floor + 1

/-- A whole quotient is its own nearest whole number. -/
theorem roundHalfEven_mul (n den : Nat) (pos : 0 < den) : roundHalfEven (n * den) den = n := by
  simp [roundHalfEven, Nat.mul_div_cancel n pos, Nat.mul_mod_left, pos]

namespace Binary64

/-- How many units a magnitude's last place must have for a quotient of `quotient` units to keep 53
significant bits, as an exponent of two. -/
def lastPlace (quotient : Nat) : Nat := quotient.log2 - 52

/-- The magnitude nearest to `num / den` units, with no upper end. -/
def magnitudeOfRatio (num den : Nat) : Nat :=
  let place := lastPlace (num / den)
  place * Nat.pow 2 52 + roundHalfEven num (den * Nat.pow 2 place)

/-- The non-negative double with a given magnitude, or infinity when there is no such finite one. -/
def ofMagnitude (magnitude : Nat) : Binary64 :=
  if h : magnitude < infiniteMagnitude then ⟨false, magnitude, Nat.lt_trans h (by decide)⟩
  else infinity

/-- The double nearest to `num / den`. -/
def ofRatio (num den : Nat) : Binary64 :=
  ofMagnitude (magnitudeOfRatio (num * Nat.pow 2 1074) den)

/-- Rounding gives no negative double. -/
theorem ofRatio_negative (num den : Nat) : (ofRatio num den).negative = false := by
  unfold ofRatio ofMagnitude
  split <;> rfl

/-- Rounding gives a number or infinity. -/
theorem ofRatio_isNaN (num den : Nat) : (ofRatio num den).isNaN = false := by
  unfold ofRatio ofMagnitude
  split
  · simp only [isNaN, decide_eq_false_iff_not]
    omega
  · decide

end Binary64

end Lox
