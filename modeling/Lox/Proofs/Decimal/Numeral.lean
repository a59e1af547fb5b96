import Lox.Proofs.Decimal.Round
import Lox.Proofs.Token.Lexes

/-!
# Numerals read back

The text of a double without a sign is a numeral that the scanner takes as one number
(`isNumeral_numeral`), and the number that it denotes is nearest to that double again
(`toBinary64_numeral`).
-/

namespace Lox

open Lexeme (isDigit IsNumeral Spells)

namespace Decimal

variable {digits whole fraction : List Char}

/-! ## Rows of digits -/

/-- Zeros behind digits multiply by powers of ten. -/
theorem ofDigits_append_zeros (digits : List Char) (k : Nat) :
    ofDigits (digits ++ List.replicate k '0') = ofDigits digits * Nat.pow 10 k := by
  change Nat.ofDigitChars 10 _ 0 = Nat.ofDigitChars 10 _ 0 * Nat.pow 10 k
  rw [Nat.ofDigitChars_append, Nat.ofDigitChars_replicate_zero, Nat.mul_comm, Nat.pow_eq]

/-- Zeros in front of digits change nothing. -/
theorem ofDigits_zeros_append (digits : List Char) (k : Nat) :
    ofDigits (List.replicate k '0' ++ digits) = ofDigits digits := by
  change Nat.ofDigitChars 10 _ 0 = Nat.ofDigitChars 10 _ 0
  rw [Nat.ofDigitChars_append, Nat.ofDigitChars_replicate_zero, Nat.mul_zero]

/-- Zeros are digits. -/
theorem isDigit_zeros (k : Nat) : ∀ d ∈ List.replicate k '0', isDigit d = true := by
  intro d mem
  rw [List.eq_of_mem_replicate mem]
  decide

/-- The digits of a number spell it. -/
theorem ofDigits_digitsOf (n : Nat) : ofDigits (digitsOf n) = n := Nat.ofDigitChars_ten_toDigits

/-- The digits of a number are digits. -/
theorem isDigit_digitsOf (n : Nat) : ∀ d ∈ digitsOf n, isDigit d = true := fun _ mem =>
  Nat.isDigit_of_mem_toDigits (by decide) (by decide) mem

/-- The digits of a positive number start with one that is not zero. -/
theorem digitsOf_eq_cons {n : Nat} (pos : 0 < n) : ∃ c cs, digitsOf n = c :: cs ∧ c ≠ '0' := by
  have digits : ∀ m < 10, 0 < m → m.digitChar ≠ '0' := by decide
  induction n using Nat.strongRecOn with
  | ind n ih =>
    by_cases small : n < 10
    · exact ⟨n.digitChar, [], Nat.toDigits_of_lt_base small, digits n small pos⟩
    · obtain ⟨c, cs, shown, some⟩ := ih (n / 10) (by omega) (by omega)
      refine ⟨c, cs ++ [(n % 10).digitChar], ?_, some⟩
      rw [digitsOf, Nat.toDigits_of_base_le (by decide) (by omega), ← List.cons_append, ← shown]
      rfl

/-- Digits are those without the zeros at their end, and these zeros. -/
theorem exists_dropTrailingZeros (digits : List Char) :
    ∃ k, digits = dropTrailingZeros digits ++ List.replicate k '0' := by
  -- Looked at from the end, what is dropped are the zeros in front.
  have zeros : digits.reverse.takeWhile (· == '0') =
      List.replicate (digits.reverse.takeWhile (· == '0')).length '0' :=
    List.eq_replicate_of_mem fun d mem => by
      simpa using List.all_eq_true.1 List.all_takeWhile d mem
  refine ⟨(digits.reverse.takeWhile (· == '0')).length, ?_⟩
  rw [dropTrailingZeros, ← List.reverse_replicate, ← zeros, ← List.reverse_append,
    List.takeWhile_append_dropWhile, List.reverse_reverse]

/-! ## Numerals -/

/-- A digit is not a point. -/
theorem ne_point_of_isDigit (all : ∀ d ∈ whole, isDigit d = true) :
    ∀ d ∈ whole, (d != '.') = true := by
  intro d mem
  refine bne_iff_ne.2 ?_
  rintro rfl
  exact absurd (all _ mem) (by decide)

/-- A numeral with a point denotes all its digits, moved by those behind the point. -/
theorem ofNumeral_point (all : ∀ d ∈ whole, isDigit d = true) (fraction : List Char) :
    ofNumeral (whole ++ '.' :: fraction) =
      ⟨ofDigits (whole ++ fraction), -(fraction.length : Int)⟩ := by
  obtain ⟨taken, left⟩ :=
    Lexeme.span_append ('.' :: fraction) (ne_point_of_isDigit all) (by simp)
  rw [ofNumeral, wholePart, fractionPart, taken, left]
  rfl

/-- A numeral without a point denotes its digits. -/
theorem ofNumeral_whole (all : ∀ d ∈ whole, isDigit d = true) :
    ofNumeral whole = ⟨ofDigits whole, 0⟩ := by
  obtain ⟨taken, left⟩ := Lexeme.span_append [] (ne_point_of_isDigit all) (by simp)
  rw [List.append_nil] at taken left
  rw [ofNumeral, wholePart, fractionPart, taken, left, List.drop_nil, List.append_nil]
  rfl

/-- Digits with a point among or around them denote the same number as without, moved by as many
places as the point is away from their end. -/
theorem toBinary64_positional (d : Digits) (all : ∀ c ∈ d.digits, isDigit c = true) :
    (ofNumeral d.positional).toBinary64 =
      (Decimal.mk (ofDigits d.digits) (d.point - d.digits.length)).toBinary64 := by
  -- The point stands in front of the digits, behind them or among them. Zeros that are put in front
  -- change nothing, and those behind are made up for by the exponent.
  unfold Digits.positional
  split
  · rename_i low
    have front : ∀ c ∈ ['0'], isDigit c = true := isDigit_zeros 1
    have value := ofNumeral_point front (List.replicate (-d.point).toNat '0' ++ d.digits)
    rw [← List.append_assoc, show ['0'] = List.replicate 1 '0' from rfl,
      List.replicate_append_replicate, ofDigits_zeros_append, List.length_append,
      List.length_replicate] at value
    have place : -(((-d.point).toNat + d.digits.length : Nat) : Int) = d.point - d.digits.length := by
      omega
    rw [place] at value
    exact congrArg toBinary64 value
  split
  · rename_i high long
    have front : ∀ c ∈ d.digits ++ List.replicate (d.point.toNat - d.digits.length) '0',
        isDigit c = true := by
      intro c mem
      exact (List.mem_append.1 mem).elim (all c) (isDigit_zeros _ c)
    rw [ofNumeral_point front, List.append_assoc, show ['0'] = List.replicate 1 '0' from rfl,
      List.replicate_append_replicate, ofDigits_append_zeros, toBinary64_shift]
    congr 2
    simp only [List.length_replicate]
    omega
  · rename_i high short
    have front : ∀ c ∈ d.digits.take d.point.toNat, isDigit c = true := fun c mem =>
      all c (List.mem_of_mem_take mem)
    rw [ofNumeral_point front, List.take_append_drop]
    congr 2
    rw [List.length_drop]
    omega

/-- The significant digits of a decimal are digits. -/
theorem isDigit_significant (d : Decimal) : ∀ c ∈ d.significant.digits, isDigit c = true := by
  obtain ⟨k, split⟩ := exists_dropTrailingZeros (digitsOf d.coefficient)
  intro c mem
  refine isDigit_digitsOf d.coefficient c ?_
  rw [split]
  exact List.mem_append_left _ mem

/-- The significant digits of a decimal other than zero start with one that is not zero. -/
theorem significant_eq_cons {d : Decimal} (pos : 0 < d.coefficient) :
    ∃ c cs, d.significant.digits = c :: cs ∧ c ≠ '0' := by
  obtain ⟨k, split⟩ := exists_dropTrailingZeros (digitsOf d.coefficient)
  obtain ⟨c, cs, shown, some⟩ := digitsOf_eq_cons pos
  change ∃ c cs, dropTrailingZeros (digitsOf d.coefficient) = c :: cs ∧ c ≠ '0'
  rw [shown] at split ⊢
  generalize dropTrailingZeros (c :: cs) = kept at split ⊢
  -- If all digits were dropped, the first one would be zero.
  cases kept with
  | nil =>
    have mem : c ∈ List.replicate k '0' := by
      rw [← List.nil_append (List.replicate k '0'), ← split]
      exact List.mem_cons_self ..
    exact absurd (List.eq_of_mem_replicate mem) some
  | cons c' cs' =>
    rw [List.cons_append] at split
    obtain rfl := (List.cons.inj split).1
    exact ⟨_, cs', rfl, some⟩

/-- The significant digits of a decimal, with the point in its place, denote a number nearest to the
same double. -/
theorem toBinary64_significant (d : Decimal) :
    (ofNumeral d.significant.positional).toBinary64 = d.toBinary64 := by
  obtain ⟨k, split⟩ := exists_dropTrailingZeros (digitsOf d.coefficient)
  have spelled := ofDigits_digitsOf d.coefficient
  have length := congrArg List.length split
  rw [List.length_append, List.length_replicate] at length
  rw [split, ofDigits_append_zeros] at spelled
  rw [toBinary64_positional _ (isDigit_significant d)]
  change (Decimal.mk (ofDigits (dropTrailingZeros (digitsOf d.coefficient)))
    ((digitsOf d.coefficient).length + d.exponent -
      (dropTrailingZeros (digitsOf d.coefficient)).length)).toBinary64 = _
  have shift := toBinary64_shift
    (ofDigits (dropTrailingZeros (digitsOf d.coefficient))) k d.exponent
  rw [spelled] at shift
  change d.toBinary64 = _ at shift
  rw [shift]
  congr 2
  omega

/-- The digits of a number are a numeral. -/
theorem isNumeral_digitsOf (n : Nat) : IsNumeral (digitsOf n) := by
  rcases Nat.eq_zero_or_pos n with rfl | pos
  · exact ⟨'0', [], [], rfl, by decide, by simp, fun _ => rfl, .inl rfl⟩
  · obtain ⟨c, cs, shown, some⟩ := digitsOf_eq_cons pos
    have all := isDigit_digitsOf n
    rw [shown] at all ⊢
    exact ⟨c, cs, [], (List.append_nil _).symm, all c (List.mem_cons_self ..),
      fun d mem => all d (List.mem_cons_of_mem _ mem), fun zero => absurd zero some, .inl rfl⟩

/-- Digits that start with one that is not zero, with a point among or around them, are a
numeral. -/
theorem isNumeral_positional {d : Digits} {c : Char} {cs : List Char} (shown : d.digits = c :: cs)
    (some : c ≠ '0') (all : ∀ e ∈ d.digits, isDigit e = true) : IsNumeral d.positional := by
  have digit : isDigit c = true := all c (by rw [shown]; exact List.mem_cons_self ..)
  have others : ∀ e ∈ cs, isDigit e = true := fun e mem =>
    all e (by rw [shown]; exact List.mem_cons_of_mem _ mem)
  have behind : ∀ fraction, fraction ≠ [] → (∀ e ∈ fraction, isDigit e = true) →
      ∃ e es, '.' :: fraction = '.' :: e :: es ∧ ∀ f ∈ e :: es, isDigit f = true := by
    intro fraction nonempty areDigits
    cases fraction with
    | nil => exact absurd rfl nonempty
    | cons e es => exact ⟨e, es, rfl, areDigits⟩
  -- In front of the point there is a single zero, all digits with zeros behind, or the first of
  -- them.
  unfold Digits.positional
  split
  · refine ⟨'0', [], _, rfl, by decide, by simp, fun _ => rfl, .inr (behind _ (by simp [shown]) ?_)⟩
    intro e mem
    exact (List.mem_append.1 mem).elim (isDigit_zeros _ e) (all e)
  split
  · refine ⟨c, cs ++ List.replicate (d.point.toNat - d.digits.length) '0', ['.', '0'],
      by rw [shown]; rfl, digit, ?_, fun isZero => absurd isZero some,
      .inr (behind ['0'] (by simp) (isDigit_zeros 1))⟩
    intro e mem
    exact (List.mem_append.1 mem).elim (others e) (isDigit_zeros _ e)
  · rename_i high short
    obtain ⟨k, point⟩ : ∃ k, d.point.toNat = k + 1 := ⟨d.point.toNat - 1, by omega⟩
    refine ⟨c, cs.take k, _, by rw [shown, point]; rfl, digit, ?_,
      fun isZero => absurd isZero some, .inr (behind (d.digits.drop d.point.toNat) ?_ ?_)⟩
    · exact fun e mem => others e (List.mem_of_mem_take mem)
    · rw [Ne, List.drop_eq_nil_iff]
      omega
    · exact fun e mem => all e (List.mem_of_mem_drop mem)

end Decimal

namespace Binary64

variable {x : Binary64}

/-! ## Doubles -/

/-- The numeral of infinity denotes a number that is nearest to infinity. -/
theorem toBinary64_infiniteNumeral :
    (Decimal.ofNumeral infiniteNumeral).toBinary64 = infinity := by
  have front : ∀ k, (Decimal.ofNumeral ('1' :: List.replicate k '0')).toBinary64 =
      (Decimal.mk 1 k).toBinary64 := by
    intro k
    have all : ∀ d ∈ '1' :: List.replicate k '0', isDigit d = true := by
      intro d mem
      rcases List.mem_cons.1 mem with rfl | mem
      · decide
      · exact Decimal.isDigit_zeros k d mem
    have tens : Decimal.ofDigits ('1' :: List.replicate k '0') = 1 * Nat.pow 10 k :=
      Decimal.ofDigits_append_zeros ['1'] k
    rw [Decimal.ofNumeral_whole all, tens, Decimal.toBinary64_shift, Int.zero_add]
  rw [infiniteNumeral, front, Decimal.toBinary64_natCast]
  refine ofRatio_of_infinite ?_
  decide +kernel

/-- The shortest decimal of a positive double is not zero. -/
theorem coefficient_shortest (plain : x.negative = false)
    (finite : x.magnitude < infiniteMagnitude) (some : x.magnitude ≠ 0) :
    0 < x.shortest.coefficient := by
  have back := toBinary64_shortest plain finite
  generalize x.shortest = d at back
  obtain ⟨coefficient, exponent⟩ := d
  -- Zero as a decimal would denote zero.
  cases coefficient with
  | zero =>
    rw [Decimal.toBinary64_zero] at back
    exact absurd (congrArg magnitude back.symm) some
  | succ n => exact Nat.succ_pos n

/-- A double that is whole is the nearest one to its digits. -/
theorem toBinary64_whole (plain : x.negative = false) (finite : x.magnitude < infiniteMagnitude)
    (whole : x.units % Nat.pow 2 1074 = 0) :
    (Decimal.ofNumeral (Decimal.digitsOf (x.units / Nat.pow 2 1074))).toBinary64 = x := by
  have split := Nat.div_mul_cancel (Nat.dvd_of_mod_eq_zero whole)
  rw [Decimal.ofNumeral_whole (Decimal.isDigit_digitsOf _), Decimal.ofDigits_digitsOf]
  generalize x.units / Nat.pow 2 1074 = n at split ⊢
  have value := Decimal.toBinary64_natCast n 0
  rw [Nat.pow_eq, Nat.pow_zero, Nat.mul_one] at value
  exact value.trans (ofRatio_of_units plain finite Nat.one_pos (split.trans (Nat.mul_one _).symm))

/-- Doubles with the same sign and magnitude are the same. -/
theorem eq_of_magnitude {x y : Binary64} (sign : x.negative = y.negative)
    (size : x.magnitude = y.magnitude) : x = y := by
  obtain ⟨negative, magnitude, bound⟩ := x
  obtain ⟨negative', magnitude', bound'⟩ := y
  obtain rfl : negative = negative' := sign
  obtain rfl : magnitude = magnitude' := size
  rfl

/-- A number that is not infinite is finite. -/
theorem finite_of_number (number : x.isNaN = false) (large : ¬ x.isInfinite = true) :
    x.magnitude < infiniteMagnitude := by
  rw [isNaN, decide_eq_false_iff_not] at number
  rw [isInfinite, beq_iff_eq] at large
  omega

/-- A double without a sign is the nearest one to its numeral. -/
theorem toBinary64_numeral (h : x.Plain) : (Decimal.ofNumeral x.numeral).toBinary64 = x := by
  obtain ⟨plain, number⟩ := h
  -- The text of infinity, of zero, of a whole number, and else the shortest digits.
  unfold numeral
  rw [number, signText, plain]
  split
  · contradiction
  split
  · rename_i infinite
    have same : infiniteMagnitude = x.magnitude := (beq_iff_eq.1 infinite).symm
    rw [toBinary64_infiniteNumeral]
    exact eq_of_magnitude plain.symm same
  split
  · rename_i none
    have value : Decimal.ofNumeral ['0'] = ⟨0, 0⟩ := by decide
    rw [value, Decimal.toBinary64_zero]
    exact eq_of_magnitude plain.symm none.symm
  · rename_i large some
    have finite := finite_of_number number large
    rw [List.nil_append]
    split
    · rename_i whole
      exact toBinary64_whole plain finite (beq_iff_eq.1 whole)
    · rw [Decimal.toBinary64_significant, toBinary64_shortest plain finite]

/-- The text of a double without a sign is a numeral. -/
theorem isNumeral_numeral (h : x.Plain) : IsNumeral x.numeral := by
  obtain ⟨plain, number⟩ := h
  unfold numeral
  rw [number, signText, plain]
  split
  · contradiction
  split
  · refine ⟨'1', List.replicate 309 '0', [], ?_, by decide, Decimal.isDigit_zeros _, ?_, .inl rfl⟩
    · rw [List.append_nil, infiniteNumeral]
    · exact fun zero => absurd zero (by decide)
  split
  · exact ⟨'0', [], [], rfl, by decide, by simp, fun _ => rfl, .inl rfl⟩
  · rename_i large some
    have finite := finite_of_number number large
    rw [List.nil_append]
    split
    · exact Decimal.isNumeral_digitsOf _
    · obtain ⟨c, cs, shown, other⟩ :=
        Decimal.significant_eq_cons (coefficient_shortest plain finite some)
      exact Decimal.isNumeral_positional shown other (Decimal.isDigit_significant _)

/-- The text of a number is its token, whose value is the number again. -/
theorem spells_number (h : x.Plain) : Spells x.numeral [(Literal.number x).token] := by
  have spells := Lexeme.spells_numeral (isNumeral_numeral h)
  rwa [Lexeme.unplaced, Token.valueOf, if_pos rfl, toBinary64_numeral h] at spells

end Binary64

end Lox
