import Lox.Proofs.Token.Lookahead
import Lox.Proofs.Token.Number

/-!
# Numbers with leading zeros

A number with a leading zero is refused, and what is proposed in its place is the same number
without the zeros at its start (`exists_zeros_append`). Zeros in front of a number change neither
its value nor where it ends, so in place of the refused number the scan takes the proposed one,
after the same tokens and with the same text behind it (`scan_corrected`).
-/

namespace Lox

open Lexeme

namespace Decimal

/-- Zeros in front of a numeral do not change what it denotes. -/
theorem ofNumeral_zeros_append (k : Nat) (numeral : List Char) :
    ofNumeral (List.replicate k '0' ++ numeral) = ofNumeral numeral := by
  have zeros : ∀ d ∈ List.replicate k '0', (d != '.') = true :=
    ne_point_of_isDigit (isDigit_zeros k)
  have whole : wholePart (List.replicate k '0' ++ numeral) =
      List.replicate k '0' ++ wholePart numeral := List.takeWhile_append_of_pos zeros
  have fraction : fractionPart (List.replicate k '0' ++ numeral) = fractionPart numeral := by
    rw [fractionPart, List.dropWhile_append_of_pos zeros, fractionPart]
  rw [ofNumeral, whole, fraction, List.append_assoc, ofDigits_zeros_append, ofNumeral]

end Decimal

namespace Lexical

open LexicalCause (dropLeadingZeros)

variable {c : Char} {after before cs ds numeral raw text : List Char} {ts : List Token}
  {code : String} {cause : LexicalCause}

/-! ## The zeros in front -/

/-- A row of digits is zeros and what is left without them, or a last zero if nothing is left. -/
theorem Digits.exists_zeros (digits : Digits ds) :
    ∃ k c cs, ds = List.replicate k '0' ++ c :: cs ∧ (c = '0' → cs = []) ∧
      (if (ds.dropWhile (· == '0')).isEmpty then ['0'] else ds.dropWhile (· == '0')) = c :: cs := by
  have zeros : ds.takeWhile (· == '0') = List.replicate (ds.takeWhile (· == '0')).length '0' :=
    List.eq_replicate_of_mem fun d mem => by simpa using List.mem_takeWhile_imp mem
  have split := List.takeWhile_append_dropWhile (p := (· == '0')) (l := ds)
  have first := List.head?_dropWhile_not (· == '0') ds
  rw [zeros] at split
  cases left : ds.dropWhile (· == '0') with
  | nil =>
    -- All digits are zeros, and there is one at least.
    rw [left, List.append_nil] at split
    cases count : (ds.takeWhile (· == '0')).length with
    | zero =>
      rw [count] at split
      exact absurd split.symm digits.1
    | succ k =>
      rw [count, List.replicate_succ'] at split
      exact ⟨k, '0', [], split.symm, fun _ => rfl, rfl⟩
  | cons c cs =>
    rw [left] at split first
    refine ⟨_, c, cs, split.symm, ?_, rfl⟩
    rintro rfl
    cases first

/-- A number is zeros and then what is proposed in its place, which is a numeral. -/
theorem IsNumber.exists_zeros_append (h : IsNumber raw) :
    ∃ k, raw = List.replicate k '0' ++ dropLeadingZeros raw ∧ IsNumeral (dropLeadingZeros raw) := by
  -- A number is digits and perhaps a fraction, and only the digits lose zeros.
  obtain ⟨ds, fraction, rfl, digits, point⟩ : ∃ ds fraction, raw = ds ++ fraction ∧ Digits ds ∧
      (fraction = [] ∨ ∃ d es, fraction = '.' :: d :: es ∧ ∀ e ∈ d :: es, isDigit e = true) := by
    cases h with
    | whole digits => exact ⟨raw, [], (List.append_nil raw).symm, digits, .inl rfl⟩
    | @fraction ds es digits more =>
      obtain ⟨d, es, rfl⟩ := List.exists_cons_of_ne_nil more.1
      exact ⟨ds, '.' :: d :: es, rfl, digits, .inr ⟨d, es, rfl, more.2⟩⟩
  have stop : ∀ d ∈ fraction.head?, (d != '.') = false := by
    rcases point with rfl | ⟨d, es, rfl, -⟩ <;> simp
  obtain ⟨taken, left⟩ := span_append fraction (Decimal.ne_point_of_isDigit digits.2) stop
  obtain ⟨k, c, cs, rfl, zero, trimmed⟩ := digits.exists_zeros
  have shown : dropLeadingZeros (List.replicate k '0' ++ c :: cs ++ fraction) =
      c :: cs ++ fraction := by
    rw [dropLeadingZeros, Decimal.wholePart, taken, left, trimmed]
  have inside : ∀ d ∈ c :: cs, isDigit d = true := fun d mem =>
    digits.2 d (List.mem_append_right _ mem)
  refine ⟨k, by rw [shown, List.append_assoc], ?_⟩
  rw [shown]
  exact ⟨c, cs, fraction, rfl, inside c (List.mem_cons_self ..),
    fun d mem => inside d (List.mem_cons_of_mem c mem), zero, point⟩

example : ["00", "000.50", "010.0"].map (fun raw => String.ofList (dropLeadingZeros raw.toList)) =
    ["0", "0.50", "10.0"] := by decide

/-- Zeros in front of a number make a number. -/
theorem IsNumber.zeros_append (h : IsNumber raw) (k : Nat) :
    IsNumber (List.replicate k '0' ++ raw) := by
  have zeros := Decimal.isDigit_zeros k
  cases h with
  | whole all => exact .whole (all.append_left zeros)
  | fraction all more =>
    rw [← List.append_assoc]
    exact .fraction (all.append_left zeros) more

/-- A numeral is a number. -/
theorem isNumber_of_isNumeral (h : IsNumeral text) : IsNumber text := by
  obtain ⟨c, cs, fraction, rfl, first, all, -, point⟩ := h
  have digits : Digits (c :: cs) := ⟨List.cons_ne_nil c cs, List.forall_mem_cons.2 ⟨first, all⟩⟩
  rcases point with rfl | ⟨d, es, rfl, areDigits⟩
  · rw [List.append_nil]
    exact .whole digits
  · exact .fraction digits ⟨List.cons_ne_nil d es, areDigits⟩

/-- A numeral starts with a digit. -/
theorem exists_digit_of_isNumeral (h : IsNumeral text) :
    ∃ c cs, text = c :: cs ∧ isDigit c = true := by
  obtain ⟨c, cs, fraction, rfl, digit, -⟩ := h
  exact ⟨c, cs ++ fraction, rfl, digit⟩

/-- A numeral has no leading zero. -/
theorem not_leadingZero_of_isNumeral (h : IsNumeral text) : ¬ LeadingZero text := by
  rintro ⟨d, more, shown, digit⟩
  obtain ⟨c, cs, fraction, rfl, -, -, zero, point⟩ := h
  rw [List.cons_append] at shown
  obtain ⟨rfl, behind⟩ := List.cons.inj shown
  -- Only a point can come behind a single zero.
  rw [zero rfl, List.nil_append] at behind
  rcases point with rfl | ⟨e, es, rfl, -⟩
  · cases behind
  · obtain ⟨rfl, -⟩ := List.cons.inj behind
    cases digit

/-! ## The number that is proposed -/

/-- A number that ends where one with more zeros in front ends is taken, if it is a numeral. -/
theorem takes_of_zeros {k : Nat} (h : Longest .number raw raw (raw ++ after))
    (zeros : raw = List.replicate k '0' ++ numeral) (isNumeral : IsNumeral numeral) :
    Takes .number numeral numeral after := by
  have number := isNumber_of_isNumeral isNumeral
  refine takes_of_longest ?_ (fun _ => not_leadingZero_of_isNumeral isNumeral) ?_
  · refine ⟨.number number, List.prefix_append numeral after, ?_⟩
    intro type content longer lexeme starts
    refine Nat.le_of_not_lt fun more => ?_
    obtain ⟨rest, rfl⟩ := List.prefix_of_prefix_length_le (List.prefix_append numeral after) starts
      (Nat.le_of_lt more)
    obtain ⟨c, cs, rfl, digit⟩ := exists_digit_of_isNumeral isNumeral
    -- With the zeros in front, the longer number would go on with the refused one.
    have whole : IsNumber (raw ++ rest) := by
      rw [zeros, List.append_assoc]
      exact (lexeme.of_digit digit).2.2.zeros_append k
    have short := h.longest (.number whole)
      ((List.prefix_append_right_inj raw).2 ((List.prefix_append_right_inj _).1 starts))
    simp only [List.length_append] at short more
    omega
  · obtain ⟨c, cs, rfl, digit⟩ := exists_digit_of_isNumeral isNumeral
    intro slash
    obtain ⟨rfl, -⟩ := List.cons.inj slash
    cases digit

/-- In place of a refused number a scan takes the numeral that is left without the zeros, behind the
same tokens. -/
theorem Reaches.take_zeros {k : Nat} (h : Reaches text before (raw ++ after) ts)
    (longest : Longest .number raw raw (raw ++ after)) (zero : LeadingZero raw)
    (zeros : raw = List.replicate k '0' ++ numeral) (isNumeral : IsNumeral numeral) :
    Reaches (before ++ numeral ++ after) before (numeral ++ after) ts ∧
      Takes .number numeral numeral after := by
  refine ⟨?_, takes_of_zeros longest zeros isNumeral⟩
  have alike : Alike (raw ++ after) (numeral ++ after) := by
    obtain ⟨d, more, rfl, -⟩ := zero
    obtain ⟨c, cs, rfl, digit⟩ := exists_digit_of_isNumeral isNumeral
    exact .digits rfl digit
  rw [List.append_assoc]
  exact h.alike alike

/-- What is refused with the code of a wrong number is a number with a leading zero. -/
theorem Refuses.exists_number (h : Refuses "L003" cause text) :
    ∃ raw, cause = .invalidNumber (String.ofList raw) LexicalCause.leadingZeroReason ∧
      Longest .number raw raw text ∧ LeadingZero raw := by
  generalize shown : "L003" = code at h
  cases h with
  | number longest zero => exact ⟨_, rfl, longest, zero⟩
  | _ => exact absurd shown (by decide)

/-- A number that is refused is cut off as a fault, and the text goes on behind it. -/
theorem cut_of_leadingZero (h : Refuses code cause (raw ++ after))
    (longest : Longest .number raw raw (raw ++ after)) (zero : LeadingZero raw)
    (shown : raw ++ after = c :: cs) : cut c cs = ⟨.fault cause, raw, after⟩ := by
  obtain ⟨d, more, rfl, -⟩ := id zero
  obtain ⟨rfl, -⟩ := List.cons.inj shown
  rw [shown] at h longest
  have piece : (cut '0' cs).piece = .fault cause := cut_of_refuses h
  have taken : (cut '0' cs).taken = '0' :: d :: more :=
    (cutNumber_eq rfl cs).1.trans ((longest_number rfl cs).unique longest).2.2
  have rest : (cut '0' cs).rest = after := by
    have split := taken_append_rest '0' cs
    rw [taken, ← shown] at split
    exact List.append_cancel_left split
  rw [← piece, ← taken, ← rest]

end Lexical

namespace Reader

open Lexical

variable {source : String} {before after raw : List Char} {ts : List Token} {code : String}
  {cause : LexicalCause}

/-- Where a text goes on with a number that has a leading zero, a pass fails right behind it. -/
theorem exists_gives_of_leadingZero (h : Reaches source.toList before (raw ++ after) ts)
    (refuses : Refuses code cause (raw ++ after)) (longest : Longest .number raw raw (raw ++ after))
    (zero : LeadingZero raw) :
    ∃ pass s s', Gives source ts pass s ∧
      s.next pass = (.fault ⟨cause, 1 + before.count '\n'⟩, .finished, s') ∧
      s'.pos = (before ++ raw).length ∧ s'.rest = after := by
  obtain ⟨pass, s, r, gives, more, -, shown, stands, same⟩ := exists_gives_of_reaches h
  have fault : r.draw =
      (.error ⟨cause, 1 + before.count '\n'⟩, r.past ⟨.fault cause, raw, after⟩) := by
    obtain ⟨c, cs, start⟩ : ∃ c cs, raw ++ after = c :: cs :=
      List.exists_cons_of_ne_nil (List.append_ne_nil_of_left_ne_nil longest.isLexeme.ne_nil after)
    have cutting := cut_of_leadingZero refuses longest zero start
    rw [← stands.line]
    exact draw_of_cut (shown.trans start) cutting
  refine ⟨pass, s, r.past ⟨.fault cause, raw, after⟩, gives, ?_, ?_, rfl⟩
  · rw [gives.moment.next_eq more, resume, same, fault]
  · rw [List.length_append, ← stands.pos]
    rfl

end Reader

/-- A text is refused for a number between other characters, and what the fault proposes to write
instead is right. -/
structure Corrects (source : String) (e : LexicalError) (before raw after numeral : List Char) :
    Prop where
  /-- The number stands between the other characters of the text. -/
  text : source.toList = before ++ raw ++ after
  /-- The pass that gave all tokens of the text fails, right behind the number. -/
  fails : ∃ pass s s', Reader.Gives source (scan source).tokens pass s ∧
    s.next pass = (.fault e, .finished, s') ∧ s'.pos = (before ++ raw).length ∧ s'.rest = after
  /-- The fault names the number and proposes the numeral instead. -/
  proposes : ∀ file, (e.report file).value = String.ofList raw ∧
    (e.report file).diagnostic.suggestions =
      some ["Write '" ++ String.ofList numeral ++ "' instead"]
  /-- With the numeral in place of the number a pass gives the same tokens and then, on the line of
  the fault, one number with this lexeme and the value of the refused one, and it stands right
  behind it. -/
  gives : ∃ s, Reader.Gives (String.ofList (before ++ numeral ++ after))
      ((scan source).tokens ++ [⟨.number, some (String.ofList numeral), some e.line,
        some (Decimal.ofNumeral raw).toBinary64⟩]) .running s ∧
    s.pos = (before ++ numeral).length ∧ s.rest = after
  /-- By itself the numeral is that number and nothing else. -/
  alone : scan (String.ofList numeral) = .ofList [⟨.number, some (String.ofList numeral), some 1,
    some (Decimal.ofNumeral raw).toBinary64⟩, .eof]

/-- If a scan fails with the code of a wrong number, then what it proposes to write instead of the
number is right: in its place the scan goes on behind the same tokens with one number, of the same
value, that ends where the refused one did. -/
theorem scan_corrected {source : String} {e : LexicalError} (fails : (scan source).fault = some e)
    (code : e.cause.code = "L003") :
    ∃ before raw after numeral : List Char, Corrects source e before raw after numeral := by
  obtain ⟨before, rest, reaches, refuses, line⟩ :=
    (Lexical.feed_eq_fault_iff source.toList (scan source).tokens e).1 (by rw [← fails]; rfl)
  -- Of the four kinds of refused texts only numbers have this code.
  obtain ⟨raw, cause, longest, zero⟩ := (code ▸ refuses).exists_number
  have place : e = ⟨e.cause, 1 + before.count '\n'⟩ := by rw [← line]
  obtain ⟨after, rfl⟩ := longest.isPrefix
  have isNumber : Lexical.IsNumber raw := by
    obtain ⟨d, more, rfl, -⟩ := id zero
    exact (longest.isLexeme.of_digit rfl).2.2
  obtain ⟨k, zeros, isNumeral⟩ := isNumber.exists_zeros_append
  generalize shown : LexicalCause.dropLeadingZeros raw = numeral at zeros isNumeral
  have value : Token.valueOf .number numeral = some (Decimal.ofNumeral raw).toBinary64 := by
    rw [Token.valueOf, if_pos rfl, zeros, Decimal.ofNumeral_zeros_append]
  obtain ⟨reaches', takes⟩ := reaches.take_zeros longest zero zeros isNumeral
  refine ⟨before, raw, after, numeral, ?_, ?_, fun file => ⟨?_, ?_⟩, ?_, ?_⟩
  · rw [(Lexical.feed_of_reaches reaches).1, List.append_assoc]
  · rw [place]
    exact Reader.exists_gives_of_leadingZero reaches refuses longest zero
  · show e.cause.value = _
    rw [cause, LexicalCause.value]
  · show e.cause.suggestions = _
    rw [cause, LexicalCause.suggestions, String.toList_ofList, shown]
  · rw [← String.toList_ofList (l := before ++ numeral ++ after)] at reaches'
    obtain ⟨s, gives, rest, stands⟩ := Reader.exists_gives_of_takes reaches' takes
    rw [Token.ofLexeme, value, ← line] at gives
    exact ⟨s, gives, stands.pos, rest⟩
  · rw [scan_of_numeral isNumeral, Token.ofLexeme, value]
    rfl

/-- Behind another number and a point, the number that is written instead is still one of its
own. -/
theorem scan_corrected_secondPoint :
    (scan "1.5.007.5").fault =
        some ⟨.invalidNumber "007.5" LexicalCause.leadingZeroReason, 1⟩ ∧
      (LexicalCause.invalidNumber "007.5" LexicalCause.leadingZeroReason).code = "L003" ∧
      ∃ before raw after numeral : List Char,
        Corrects "1.5.007.5" ⟨.invalidNumber "007.5" LexicalCause.leadingZeroReason, 1⟩
          before raw after numeral :=
  have fails : (scan "1.5.007.5").fault =
      some ⟨.invalidNumber "007.5" LexicalCause.leadingZeroReason, 1⟩ := by decide +kernel
  ⟨fails, rfl, scan_corrected fails rfl⟩

end Lox
