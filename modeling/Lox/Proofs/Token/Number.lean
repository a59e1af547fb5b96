import Mathlib.Tactic.TFAE
import Lox.Proofs.Decimal.Numeral
import Lox.Proofs.Token.Valid

/-!
# Numbers are scanned back

The form of a double in program text is a numeral, and a scan of it gives one number, whose value is
the double again, bit for bit. This is so for the doubles that numbers in program texts can have as
their values, which are those without a sign, infinity among them, and for no others
(`tfae_scan_numeral`).
-/

namespace Lox

open Lexeme (IsNumeral)

/-- A numeral by itself is scanned as one number, on the first line. -/
theorem scan_of_numeral {text : List Char} (h : IsNumeral text) :
    scan (String.ofList text) = .ofList [.ofLexeme .number text 1, .eof] := by
  obtain ⟨c, cs, fraction, rfl, -⟩ := id h
  have shown : Lexeme.cut c (cs ++ fraction ++ []) = _ := Lexeme.cut_of_numeral h rfl
  rw [List.append_nil] at shown
  rw [scan, String.toList_ofList, List.cons_append, Lexeme.feedFrom_of_token shown]
  unfold Lexeme.feedFrom
  rfl

/-- A double without a sign that is no number beyond infinity is a number or infinity. -/
theorem Binary64.plain_iff {x : Binary64} :
    x.Plain ↔ x.negative = false ∧ x.magnitude ≤ Binary64.infiniteMagnitude := by
  rw [Plain, isNaN, decide_eq_false_iff_not, Nat.not_lt]

/-- These are the same: a double is a finite number or infinity and has no sign; it is the value of
a number in some program text; its form in program text is digits, with a point and more digits or
without, and with no zero in front of other digits before the point, and a scan of this text gives
one number, whose value is the double. -/
theorem tfae_scan_numeral (x : Binary64) : List.TFAE [
    x.negative = false ∧ x.magnitude ≤ Binary64.infiniteMagnitude,
    ∃ source, ∃ t ∈ (scan source).tokens, t.type = .number ∧ t.literal = some x,
    IsNumeral x.numeral ∧ scan (String.ofList x.numeral) =
      .ofList [⟨.number, some (String.ofList x.numeral), some 1, some x⟩, .eof]] := by
  -- A double without a sign is displayed as digits, and its text gives one number. So it is the
  -- value of a number in a text, and such values have no sign.
  tfae_have 1 → 3 := by
    intro bounds
    have plain := Binary64.plain_iff.2 bounds
    have numeral := Binary64.isNumeral_numeral plain
    refine ⟨numeral, ?_⟩
    rw [scan_of_numeral numeral, Token.ofLexeme, Token.valueOf, if_pos rfl,
      Binary64.toBinary64_numeral plain]
    rfl
  tfae_have 3 → 2 := by
    rintro ⟨-, scanned⟩
    refine ⟨String.ofList x.numeral, ⟨.number, some (String.ofList x.numeral), some 1, some x⟩, ?_,
      rfl, rfl⟩
    rw [scanned]
    exact List.mem_cons_self
  tfae_have 2 → 1 := by
    rintro ⟨source, t, mem, type, literal⟩
    obtain ⟨y, value, plain⟩ := (valid_of_scan source t mem).number type
    obtain rfl : x = y := Option.some.inj (literal.symm.trans value)
    exact Binary64.plain_iff.1 plain
  tfae_finish

end Lox
