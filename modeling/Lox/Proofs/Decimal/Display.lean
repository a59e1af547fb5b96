import Lox.Proofs.Decimal.Numeral

/-!
# Displayed numbers read back

The form of a double in structural dumps has the shortest digits that round to it, with a point or
with an exponent. Either way they denote a decimal that is nearest to that double again
(`ofDisplay_display`), so doubles without a sign that are displayed alike are the same.
-/

namespace Lox

open Lexeme (isDigit)

namespace Decimal

/-- The number that an exponent with its sign spells. -/
def ofExponent : List Char → Int
  | '-' :: digits => -(ofDigits digits : Int)
  | _ :: digits => ofDigits digits
  | [] => 0

/-- The decimal that a numeral denotes which may have an exponent behind it. -/
def ofText (text : List Char) : Decimal :=
  let mantissa := ofNumeral (text.takeWhile (· != 'e'))
  ⟨mantissa.coefficient, mantissa.exponent + ofExponent ((text.dropWhile (· != 'e')).drop 1)⟩

/-- A character is part of a numeral without exponent. -/
def IsMantissaPart (c : Char) : Prop := isDigit c = true ∨ c = '.'

/-- A part of a numeral without exponent is no mark of an exponent. -/
theorem ne_mark_of_isMantissaPart {c : Char} (part : IsMantissaPart c) : (c != 'e') = true := by
  refine bne_iff_ne.2 ?_
  rintro rfl
  exact absurd part (by unfold IsMantissaPart; decide)

variable {text digits : List Char}

/-- Without an exponent a numeral denotes what it does by itself. -/
theorem ofText_of_mantissa (parts : ∀ c ∈ text, IsMantissaPart c) :
    ofText text = ofNumeral text := by
  obtain ⟨taken, left⟩ := Lexeme.span_append (p := (· != 'e')) []
    (fun c mem => ne_mark_of_isMantissaPart (parts c mem)) (by simp)
  rw [List.append_nil] at taken left
  rw [ofText, taken, left]
  exact congrArg (Decimal.mk _) (Int.add_zero _)

/-- An exponent moves what a numeral denotes. -/
theorem ofText_exponent (parts : ∀ c ∈ text, IsMantissaPart c) (exponent : List Char) :
    ofText (text ++ 'e' :: exponent) =
      ⟨(ofNumeral text).coefficient, (ofNumeral text).exponent + ofExponent exponent⟩ := by
  obtain ⟨taken, left⟩ := Lexeme.span_append (p := (· != 'e')) ('e' :: exponent)
    (fun c mem => ne_mark_of_isMantissaPart (parts c mem)) (by simp)
  rw [ofText, taken, left]
  rfl

/-- The text of an exponent spells it. -/
theorem ofExponent_exponentText (e : Int) : ofExponent (Digits.exponentText e) = e := by
  unfold Digits.exponentText
  split
  · rename_i below
    change -(ofDigits (List.replicate _ '0' ++ digitsOf e.natAbs) : Int) = e
    rw [ofDigits_zeros_append, ofDigits_digitsOf]
    omega
  · rename_i above
    change (ofDigits (List.replicate _ '0' ++ digitsOf e.natAbs) : Int) = e
    rw [ofDigits_zeros_append, ofDigits_digitsOf]
    omega

/-- The digits in front of an exponent, with the point behind the first one. -/
def Digits.mantissa (d : Digits) : List Char :=
  d.digits.take 1 ++ if (d.digits.drop 1).isEmpty then [] else '.' :: d.digits.drop 1

/-- A number with an exponent is one digit in front of the point, the others behind it, and the
exponent. -/
theorem Digits.scientific_eq (d : Digits) :
    d.scientific = d.mantissa ++ 'e' :: Digits.exponentText (d.point - 1) := rfl

/-- The digits in front of an exponent are part of a numeral. -/
theorem isMantissaPart_mantissa {d : Digits} (all : ∀ c ∈ d.digits, isDigit c = true) :
    ∀ c ∈ d.mantissa, IsMantissaPart c := by
  intro c mem
  rcases List.mem_append.1 mem with first | others
  · exact .inl (all c (List.mem_of_mem_take first))
  · split at others
    · cases others
    · rcases List.mem_cons.1 others with rfl | fraction
      · exact .inr rfl
      · exact .inl (all c (List.mem_of_mem_drop fraction))

/-- The digits in front of an exponent denote all of them, moved by those behind the first. -/
theorem ofNumeral_mantissa {d : Digits} (all : ∀ c ∈ d.digits, isDigit c = true) {c : Char}
    {cs : List Char} (shown : d.digits = c :: cs) :
    ofNumeral d.mantissa = ⟨ofDigits d.digits, 1 - (d.digits.length : Int)⟩ := by
  have front : ∀ e ∈ [c], isDigit e = true := by
    rw [shown] at all
    exact List.forall_mem_singleton.2 (all c (List.mem_cons_self ..))
  rw [Digits.mantissa, shown, List.take_succ_cons, List.take_zero, List.drop_succ_cons,
    List.drop_zero]
  cases cs with
  | nil => exact ofNumeral_whole front
  | cons e es =>
    have value := ofNumeral_point front (e :: es)
    rw [List.singleton_append] at value
    refine value.trans (congrArg (Decimal.mk _) ?_)
    simp only [List.length_cons]
    omega

/-- A number with an exponent denotes its digits, with the point in its place. -/
theorem ofText_scientific {d : Digits} (all : ∀ c ∈ d.digits, isDigit c = true) {c : Char}
    {cs : List Char} (shown : d.digits = c :: cs) :
    ofText d.scientific = ⟨ofDigits d.digits, d.point - d.digits.length⟩ := by
  rw [Digits.scientific_eq, ofText_exponent (isMantissaPart_mantissa all),
    ofExponent_exponentText, ofNumeral_mantissa all shown]
  refine congrArg (Decimal.mk _) ?_
  show 1 - (d.digits.length : Int) + (d.point - 1) = _
  omega

/-- A number without an exponent is digits and a point. -/
theorem isMantissaPart_positional {d : Digits} (all : ∀ c ∈ d.digits, isDigit c = true) :
    ∀ c ∈ d.positional, IsMantissaPart c := by
  have zeros (k : Nat) : ∀ c ∈ List.replicate k '0', IsMantissaPart c := fun c mem =>
    .inl (isDigit_zeros k c mem)
  have given : ∀ c ∈ d.digits, IsMantissaPart c := fun c mem => .inl (all c mem)
  have zero : IsMantissaPart '0' := .inl (by decide)
  have point : IsMantissaPart '.' := .inr rfl
  -- The point stands in front of the digits, behind them or among them.
  unfold Digits.positional
  split
  · rw [List.forall_mem_cons, List.forall_mem_cons, List.forall_mem_append]
    exact ⟨zero, point, zeros _, given⟩
  split
  · rw [List.forall_mem_append, List.forall_mem_append, List.forall_mem_cons,
      List.forall_mem_singleton]
    exact ⟨⟨given, zeros _⟩, point, zero⟩
  · have before : ∀ c ∈ d.digits.take d.point.toNat, IsMantissaPart c := fun c mem =>
      given c (List.mem_of_mem_take mem)
    have behind : ∀ c ∈ d.digits.drop d.point.toNat, IsMantissaPart c := fun c mem =>
      given c (List.mem_of_mem_drop mem)
    rw [List.forall_mem_append, List.forall_mem_cons]
    exact ⟨before, point, behind⟩

/-- The significant digits of a decimal other than zero denote a number nearest to the same double,
with an exponent as well. -/
theorem toBinary64_scientific {d : Decimal} (pos : 0 < d.coefficient) :
    (ofText d.significant.scientific).toBinary64 = d.toBinary64 := by
  have all := isDigit_significant d
  obtain ⟨c, cs, shown, -⟩ := significant_eq_cons pos
  rw [ofText_scientific all shown, ← toBinary64_positional _ all, toBinary64_significant]

end Decimal

namespace Binary64

variable {x y : Binary64}

/-- The double that a displayed number stands for. -/
def ofDisplay (text : List Char) : Binary64 :=
  if text = ['i', 'n', 'f'] then infinity else (Decimal.ofText text).toBinary64

/-- A character is part of a displayed number. -/
def IsDisplayPart (c : Char) : Prop := isDigit c = true ∨ c ∈ ['.', 'e', '+', '-', 'i', 'n', 'f']

/-- How a double without a sign is displayed: infinity, zero, or its shortest digits. -/
theorem display_cases (h : x.Plain) :
    x = infinity ∧ x.display = ['i', 'n', 'f'] ∨
    x = zero ∧ x.display = ['0', '.', '0'] ∨
    (0 < x.shortest.coefficient ∧ x.shortest.toBinary64 = x) ∧
      (x.display = x.shortest.significant.positional ∨
        x.display = x.shortest.significant.scientific) := by
  obtain ⟨plain, number⟩ := h
  rw [display, number, signText, plain]
  simp only [Bool.false_eq_true, if_false, List.nil_append]
  by_cases infinite : x.isInfinite = true
  · rw [if_pos infinite]
    exact .inl ⟨eq_of_magnitude plain (beq_iff_eq.1 infinite), rfl⟩
  by_cases none : x.magnitude = 0
  · rw [if_neg infinite, if_pos none]
    exact .inr (.inl ⟨eq_of_magnitude plain none, rfl⟩)
  have finite := finite_of_number number infinite
  refine .inr (.inr ⟨⟨coefficient_shortest plain finite none, toBinary64_shortest plain finite⟩, ?_⟩)
  rw [if_neg infinite, if_neg none]
  split
  · exact .inl rfl
  · exact .inr rfl

/-- The shortest digits of a double other than zero, with the point or an exponent in its place,
start with a digit. -/
theorem shown_eq_cons {d : Decimal} (pos : 0 < d.coefficient) {text : List Char}
    (shown : text = d.significant.positional ∨ text = d.significant.scientific) :
    ∃ c cs, text = c :: cs ∧ isDigit c = true := by
  have all := Decimal.isDigit_significant d
  obtain ⟨c, cs, digits, some⟩ := Decimal.significant_eq_cons pos
  rcases shown with rfl | rfl
  · obtain ⟨c', cs', fraction, eq, digit, -⟩ := Decimal.isNumeral_positional digits some all
    exact ⟨c', cs' ++ fraction, eq, digit⟩
  · rw [digits] at all
    rw [Decimal.Digits.scientific_eq, Decimal.Digits.mantissa, digits]
    exact ⟨c, _, rfl, all c (List.mem_cons_self ..)⟩

/-- What the shortest digits are displayed as are parts of displayed numbers. -/
theorem isDisplayPart_shown {d : Decimal} {text : List Char}
    (shown : text = d.significant.positional ∨ text = d.significant.scientific) :
    ∀ c ∈ text, IsDisplayPart c := by
  have all := Decimal.isDigit_significant d
  have part {c : Char} (mantissa : Decimal.IsMantissaPart c) : IsDisplayPart c := by
    rcases mantissa with digit | rfl
    · exact .inl digit
    · exact .inr (by decide)
  rcases shown with rfl | rfl
  · exact fun c mem => part (Decimal.isMantissaPart_positional all c mem)
  · rw [Decimal.Digits.scientific_eq, List.forall_mem_append, List.forall_mem_cons,
      Decimal.Digits.exponentText, List.forall_mem_cons, List.forall_mem_append]
    refine ⟨fun c mem => part (Decimal.isMantissaPart_mantissa all c mem), .inr (by decide), ?_,
      fun c mem => .inl (Decimal.isDigit_zeros _ c mem),
      fun c mem => .inl (Decimal.isDigit_digitsOf _ c mem)⟩
    split <;> exact .inr (by decide)

/-- All of a displayed number are its parts. -/
theorem isDisplayPart_display (h : x.Plain) : ∀ c ∈ x.display, IsDisplayPart c := by
  rcases display_cases h with ⟨-, shown⟩ | ⟨-, shown⟩ | ⟨-, shown⟩
  · rw [shown]
    exact fun c mem => .inr (List.mem_append_right ['.', 'e', '+', '-'] mem)
  · rw [shown]
    simp [IsDisplayPart, Lexeme.isDigit]
  · exact isDisplayPart_shown shown

/-- A double without a sign is the one that its displayed form stands for. -/
theorem ofDisplay_display (h : x.Plain) : ofDisplay x.display = x := by
  rcases display_cases h with ⟨rfl, shown⟩ | ⟨rfl, shown⟩ | ⟨⟨pos, back⟩, shown⟩
  · rw [shown]
    rfl
  · rw [shown]
    have value : Decimal.ofText ['0', '.', '0'] = ⟨0, -1⟩ := by decide
    rw [ofDisplay, if_neg (by decide), value, Decimal.toBinary64_zero]
  · have finite : x.display ≠ ['i', 'n', 'f'] := by
      obtain ⟨c, cs, starts, digit⟩ := shown_eq_cons pos shown
      rw [starts]
      rintro ⟨⟩
      exact absurd digit (by decide)
    rw [ofDisplay, if_neg finite]
    rcases shown with shown | shown
    · rw [shown, Decimal.ofText_of_mantissa
        (Decimal.isMantissaPart_positional (Decimal.isDigit_significant _)),
        Decimal.toBinary64_significant, back]
    · rw [shown, Decimal.toBinary64_scientific pos, back]

/-- Doubles without a sign that are displayed alike are the same. -/
theorem display_inj (hx : x.Plain) (hy : y.Plain) (same : x.display = y.display) : x = y := by
  rw [← ofDisplay_display hx, same, ofDisplay_display hy]

end Binary64

end Lox
