/-!
# Doubles

A double is a sign and a magnitude: the 63 low bits of its binary64 word, read as a number. In this
order the finite magnitudes count the non-negative doubles from zero upwards, so `magnitude + 1` is
the next double, and `2047 * 2 ^ 52` is infinity. Every finite double is a whole multiple of the
least positive one, `2 ^ -1074`; `units` is that multiple, so the arithmetic of this library stays
in the natural numbers.
-/

namespace Lox

/-- A binary64 datum. -/
structure Binary64 where
  /-- The sign bit. -/
  negative : Bool
  /-- The biased exponent and the fraction, as one number. -/
  magnitude : Nat
  /-- The magnitude has 63 bits. -/
  magnitude_lt : magnitude < Nat.pow 2 63
  deriving DecidableEq

namespace Binary64

/-- The magnitude of infinity: an exponent field of ones and no fraction. -/
def infiniteMagnitude : Nat := 2047 * Nat.pow 2 52

/-- Positive infinity. -/
def infinity : Binary64 := ⟨false, infiniteMagnitude, by decide⟩

/-- Positive zero. -/
def zero : Binary64 := ⟨false, 0, by decide⟩

instance : Inhabited Binary64 := ⟨zero⟩

/-- A double stands for a number or an infinity unless it is not a number. -/
def isNaN (x : Binary64) : Bool := decide (infiniteMagnitude < x.magnitude)

/-- Both infinities. -/
def isInfinite (x : Binary64) : Bool := x.magnitude == infiniteMagnitude

/-- The double with a given word; bits above the low 64 are dropped. -/
def ofWord (word : Nat) : Binary64 :=
  ⟨word / Nat.pow 2 63 % 2 == 1, word % Nat.pow 2 63, Nat.mod_lt _ (by decide)⟩

/-- The word of a double. -/
def toWord (x : Binary64) : Nat := (if x.negative then Nat.pow 2 63 else 0) + x.magnitude

/-- Reading the word of a double gives the double back. -/
theorem ofWord_toWord (x : Binary64) : ofWord x.toWord = x := by
  obtain ⟨negative, magnitude, bound⟩ := x
  have small : magnitude < 2 ^ 63 := bound
  cases negative <;> simp [ofWord, toWord] <;> omega

/-- The exponent of a magnitude's last place, in units: subnormal doubles and those of the first
binade above them share the exponent zero. -/
def exponentOf (magnitude : Nat) : Nat := magnitude / Nat.pow 2 52 - 1

/-- The significand of a magnitude, hidden bit included. -/
def significandOf (magnitude : Nat) : Nat :=
  if magnitude / Nat.pow 2 52 = 0 then magnitude % Nat.pow 2 52
  else Nat.pow 2 52 + magnitude % Nat.pow 2 52

/-- The absolute value of a finite double, as a multiple of `2 ^ -1074`. -/
def units (x : Binary64) : Nat := significandOf x.magnitude * Nat.pow 2 (exponentOf x.magnitude)

/-- Numeric equality: the zeros are one number, and what is not a number equals nothing. -/
def equal (x y : Binary64) : Bool :=
  !x.isNaN && !y.isNaN &&
    (x.magnitude == y.magnitude && (x.negative == y.negative || x.magnitude == 0))

/-- Equality of two numbers does not look at their order. -/
theorem equal_comm (x y : Binary64) : x.equal y = y.equal x := by
  grind [equal]

/-- Two numbers of one sign, or with a magnitude other than zero, are equal only if they are the
same double. -/
theorem eq_of_equal {x y : Binary64} (h : x.equal y = true) (sign : x.negative = y.negative) :
    x = y := by
  obtain ⟨_, _, _⟩ := x
  obtain ⟨_, _, _⟩ := y
  simp_all [equal]

end Binary64

end Lox
