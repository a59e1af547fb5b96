import Lox.Decimal.Shortest

/-!
# Rounding back

A double is the nearest one to its own value, however that value is written as a quotient
(`ofRatio_of_units`). Rounding depends on the quotient alone (`ofRatio_mul`), and so the nearest
double to a decimal does not depend on where its point is put (`toBinary64_shift`).
-/

namespace Lox

/-- The nearest whole number depends on the quotient alone. -/
theorem roundHalfEven_mul_mul (num den : Nat) {k : Nat} (pos : 0 < k) :
    roundHalfEven (num * k) (den * k) = roundHalfEven num den := by
  have below : 2 * (num % den * k) < den * k ↔ 2 * (num % den) < den := by
    rw [← Nat.mul_assoc]
    exact Nat.mul_lt_mul_right pos
  have above : den * k < 2 * (num % den * k) ↔ den < 2 * (num % den) := by
    rw [← Nat.mul_assoc]
    exact Nat.mul_lt_mul_right pos
  simp only [roundHalfEven, Nat.mul_div_mul_right _ _ pos, Nat.mul_mod_mul_right, below, above]

namespace Binary64

variable {x : Binary64}

/-- The nearest magnitude depends on the quotient alone. -/
theorem magnitudeOfRatio_mul (num den : Nat) {k : Nat} (pos : 0 < k) :
    magnitudeOfRatio (num * k) (den * k) = magnitudeOfRatio num den := by
  rw [magnitudeOfRatio, magnitudeOfRatio, Nat.mul_div_mul_right _ _ pos, Nat.mul_right_comm den,
    roundHalfEven_mul_mul _ _ pos]

/-- The nearest double depends on the quotient alone. -/
theorem ofRatio_mul (num den : Nat) {k : Nat} (pos : 0 < k) :
    ofRatio (num * k) (den * k) = ofRatio num den := by
  rw [ofRatio, ofRatio, Nat.mul_right_comm num, magnitudeOfRatio_mul _ _ pos]

/-- The place of a significand with a hidden bit is its exponent. -/
theorem lastPlace_mul (fraction place : Nat) (small : fraction < Nat.pow 2 52) :
    lastPlace ((Nat.pow 2 52 + fraction) * Nat.pow 2 place) = place := by
  rw [Nat.pow_eq] at small
  rw [Nat.pow_eq, Nat.pow_eq]
  have some : (2 ^ 52 + fraction) * 2 ^ place ≠ 0 := by
    have := Nat.two_pow_pos place
    have : 0 < (2 ^ 52 + fraction) * 2 ^ place := Nat.mul_pos (by omega) this
    omega
  have log : ((2 ^ 52 + fraction) * 2 ^ place).log2 = 52 + place := by
    rw [Nat.log2_eq_iff some, Nat.add_right_comm, Nat.pow_add, Nat.pow_add 2 (52 + 1) place]
    exact ⟨Nat.mul_le_mul_right _ (by omega),
      (Nat.mul_lt_mul_right (Nat.two_pow_pos place)).2 (by omega)⟩
  rw [lastPlace, log]
  omega

/-- The magnitude nearest to the units of a double is its own. -/
theorem magnitudeOfRatio_units (x : Binary64) {k : Nat} (pos : 0 < k) :
    magnitudeOfRatio (x.units * k) k = x.magnitude := by
  have split := Nat.div_add_mod x.magnitude (2 ^ 52)
  have small := Nat.mod_lt x.magnitude (Nat.two_pow_pos 52)
  simp only [magnitudeOfRatio, Nat.mul_div_cancel _ pos, units, significandOf, exponentOf,
    Nat.pow_eq]
  generalize x.magnitude / 2 ^ 52 = place at *
  generalize x.magnitude % 2 ^ 52 = fraction at *
  cases place with
  | zero =>
    -- A subnormal double counts units, as does its significand.
    have log : lastPlace fraction = 0 := by
      rw [lastPlace]
      by_cases zero : fraction = 0
      · rw [zero, Nat.log2_zero]
      · have := (Nat.log2_lt zero).2 small
        omega
    simp only [if_true, Nat.zero_sub, Nat.pow_zero, Nat.mul_one, log, Nat.zero_mul, Nat.zero_add,
      roundHalfEven_mul _ _ pos]
    omega
  | succ place =>
    have pos' : 0 < k * 2 ^ place := Nat.mul_pos pos (Nat.two_pow_pos place)
    simp only [Nat.add_eq_zero_iff, Nat.one_ne_zero, and_false, if_false, Nat.add_sub_cancel,
      ← Nat.pow_eq, lastPlace_mul _ _ small]
    simp only [Nat.pow_eq]
    rw [Nat.mul_assoc _ (2 ^ place), Nat.mul_comm (2 ^ place), roundHalfEven_mul _ _ pos']
    omega

/-- A finite double without a sign is the one with its magnitude. -/
theorem ofMagnitude_magnitude (plain : x.negative = false)
    (finite : x.magnitude < infiniteMagnitude) : ofMagnitude x.magnitude = x := by
  obtain ⟨negative, magnitude, bound⟩ := x
  obtain rfl : negative = false := plain
  rw [ofMagnitude, dif_pos finite]

/-- A finite double without a sign is the nearest one to any quotient that it is equal to. -/
theorem ofRatio_of_units {num den : Nat} (plain : x.negative = false)
    (finite : x.magnitude < infiniteMagnitude) (pos : 0 < den)
    (equal : num * Nat.pow 2 1074 = x.units * den) : ofRatio num den = x := by
  rw [ofRatio, equal, magnitudeOfRatio_units x pos, ofMagnitude_magnitude plain finite]

/-- What is nearer to a magnitude past the finite ones is nearest to infinity. -/
theorem ofRatio_of_infinite {num den : Nat}
    (large : infiniteMagnitude ≤ magnitudeOfRatio (num * Nat.pow 2 1074) den) :
    ofRatio num den = infinity := by
  rw [ofRatio, ofMagnitude, dif_neg (Nat.not_lt.2 large)]

/-- The nearest double to zero is zero. -/
theorem ofRatio_zero {den : Nat} (pos : 0 < den) : ofRatio 0 den = zero := by
  have none : zero.units = 0 := by decide
  refine ofRatio_of_units rfl (by decide) pos ?_
  generalize Nat.pow 2 1074 = scale
  rw [none, Nat.zero_mul, Nat.zero_mul]

end Binary64

namespace Decimal

/-- The nearest double to a decimal is a number or infinity. -/
theorem toBinary64_isNaN (d : Decimal) : d.toBinary64.isNaN = false := by
  unfold toBinary64
  split <;> exact Binary64.ofRatio_isNaN ..

/-- The nearest double to a whole number with zeros behind it. -/
theorem toBinary64_natCast (n k : Nat) :
    (Decimal.mk n k).toBinary64 = Binary64.ofRatio (n * Nat.pow 10 k) 1 := by
  rw [toBinary64, if_pos (Int.natCast_nonneg k), Int.toNat_natCast]

/-- The nearest double does not depend on where the point of a decimal is put. -/
theorem toBinary64_shift (n k : Nat) (e : Int) :
    (Decimal.mk (n * Nat.pow 10 k) e).toBinary64 = (Decimal.mk n (e + k)).toBinary64 := by
  simp only [toBinary64, Nat.pow_eq]
  by_cases whole : 0 ≤ e
  · have sum : (e + k).toNat = k + e.toNat := by omega
    rw [if_pos whole, if_pos (by omega), sum, Nat.pow_add, Nat.mul_assoc]
  · rw [if_neg whole]
    by_cases whole' : 0 ≤ e + k
    · have sum : k = (e + k).toNat + (-e).toNat := by omega
      rw [if_pos whole', ← Binary64.ofRatio_mul _ 1 (Nat.pow_pos (by decide : 0 < 10)),
        Nat.one_mul, Nat.mul_assoc, ← Nat.pow_add, ← sum]
    · have sum : (-e).toNat = (-(e + k)).toNat + k := by omega
      rw [if_neg whole', sum, Nat.pow_add, Binary64.ofRatio_mul _ _ (Nat.pow_pos (by decide))]

/-- The nearest double to zero is zero. -/
theorem toBinary64_zero (e : Int) : (Decimal.mk 0 e).toBinary64 = .zero := by
  simp only [toBinary64, Nat.pow_eq, Nat.zero_mul]
  split
  · exact Binary64.ofRatio_zero Nat.one_pos
  · exact Binary64.ofRatio_zero (Nat.pow_pos (by decide))

end Decimal

namespace Binary64

variable {x : Binary64}

/-- The nearest double to the exact value of a double is that double. -/
theorem toBinary64_exact (plain : x.negative = false) (finite : x.magnitude < infiniteMagnitude) :
    x.exact.toBinary64 = x := by
  have quotient : ∀ k : Nat, 0 < k → (Decimal.mk (x.units * Nat.pow 5 k) (-(k : Int))).toBinary64 =
      ofRatio (x.units * Nat.pow 5 k) (Nat.pow 10 k) := by
    intro k pos
    rw [Decimal.toBinary64, if_neg (by change ¬ 0 ≤ -(k : Int); omega)]
    simp
  have tens : ∀ k, x.units * Nat.pow 5 k * Nat.pow 2 k = x.units * Nat.pow 10 k := by
    intro k
    simp only [Nat.pow_eq, Nat.mul_assoc, ← Nat.mul_pow]
  have pos : ∀ k, 0 < Nat.pow 10 k := fun k => Nat.pow_pos (by decide)
  -- The powers are too large to be computed, so their exponent gets a name.
  obtain ⟨k, scale⟩ : ∃ k : Nat, 1074 = k := ⟨1074, rfl⟩
  rw [exact, show (-1074 : Int) = -((1074 : Nat) : Int) from rfl, scale, quotient k (by omega),
    ofRatio, scale, tens k, magnitudeOfRatio_units x (pos k), ofMagnitude_magnitude plain finite]

/-- The shortest decimal of a double rounds to it. -/
theorem toBinary64_shortestFrom (plain : x.negative = false)
    (finite : x.magnitude < infiniteMagnitude) (count tries : Nat) :
    (x.shortestFrom count tries).toBinary64 = x := by
  induction tries generalizing count with
  | zero => exact toBinary64_exact plain finite
  | succ tries ih =>
    rw [shortestFrom]
    cases found : x.nearestInGrid? (x.leadingExponent + 1 - count) with
    | none => exact ih (count + 1)
    | some d => exact toBinary64_of_nearestInGrid? found

/-- The shortest decimal of a double without a sign rounds to it. -/
theorem toBinary64_shortest (plain : x.negative = false)
    (finite : x.magnitude < infiniteMagnitude) : x.shortest.toBinary64 = x := by
  have same : { x with negative := false } = x := by
    obtain ⟨negative, magnitude, bound⟩ := x
    obtain rfl : negative = false := plain
    rfl
  rw [shortest, same]
  exact toBinary64_shortestFrom plain finite 1 17

end Binary64

end Lox
