import Lox.Text.Quoted

/-!
# Reading quoted text

The form of a text in structural dumps can be read back: what stands for a character inside quotes
says which character it is and where it ends (`unescape_escape`), and none of it is the closing
quote. So a quoted text shows its text and its own end, whatever is written behind it
(`quotedChars_append_inj`).
-/

namespace Lox.Text

/-- The value of a hexadecimal digit. -/
def hexDigitValue (c : Char) : Nat :=
  if c.isDigit then c.toNat - '0'.toNat else c.toNat - 'a'.toNat + 10

/-- The number that a row of hexadecimal digits spells. -/
def ofHex (digits : List Char) : Nat := digits.foldl (fun n c => 16 * n + hexDigitValue c) 0

/-- Zeros in front of hexadecimal digits change nothing. -/
theorem ofHex_zeros_append (k : Nat) (digits : List Char) :
    ofHex (List.replicate k '0' ++ digits) = ofHex digits := by
  have zeros : (List.replicate k '0').foldl (fun n c => 16 * n + hexDigitValue c) 0 = 0 := by
    induction k with
    | zero => rfl
    | succ k ih => exact ih
  rw [ofHex, List.foldl_append, zeros, ofHex]

/-- The hexadecimal digits of a number spell it. -/
theorem ofHex_toDigits (n : Nat) : ofHex (Nat.toDigits 16 n) = n := by
  have digit : ∀ d < 16, hexDigitValue d.digitChar = d := by decide
  induction n using Nat.strongRecOn with
  | ind n ih =>
    by_cases small : n < 16
    · rw [Nat.toDigits_of_lt_base small, ofHex, List.foldl_cons, List.foldl_nil, digit n small,
        Nat.mul_zero, Nat.zero_add]
    · have front := ih (n / 16) (by omega)
      rw [ofHex] at front
      rw [Nat.toDigits_of_base_le (by decide) (by omega), ofHex, List.foldl_append, front,
        List.foldl_cons, List.foldl_nil, digit _ (Nat.mod_lt _ (by decide))]
      omega

/-- A number in hexadecimal spells this number. -/
theorem ofHex_hex (width n : Nat) : ofHex (hex width n) = n := by
  rw [hex, ofHex_zeros_append, ofHex_toDigits]

/-- A number in hexadecimal is as wide as it should be. -/
theorem length_hex {width n : Nat} (pos : 0 < width) (fits : n < Nat.pow 16 width) :
    (hex width n).length = width := by
  have short := (Nat.length_toDigits_le_iff (b := 16) (by decide) pos).2 fits
  rw [hex, List.length_append, List.length_replicate]
  omega

/-- The character with a code of some digits in hexadecimal, and what comes after it. -/
def ofCode (width : Nat) (text : List Char) : Char × List Char :=
  (Char.ofNat (ofHex (text.take width)), text.drop width)

/-- Reads the first character of what stands inside quotes. -/
def unescape : List Char → Option (Char × List Char)
  | '\\' :: 'n' :: rest => some ('\n', rest)
  | '\\' :: 'r' :: rest => some ('\r', rest)
  | '\\' :: 't' :: rest => some ('\t', rest)
  | '\\' :: 'x' :: rest => some (ofCode 2 rest)
  | '\\' :: 'u' :: rest => some (ofCode 4 rest)
  | '\\' :: 'U' :: rest => some (ofCode 8 rest)
  | '\\' :: c :: rest => some (c, rest)
  | '\\' :: [] => none
  | c :: rest => some (c, rest)
  | [] => none

/-- The code of a character is the code of this character. -/
theorem ofCode_hex {width : Nat} {c : Char} (pos : 0 < width) (fits : c.toNat < Nat.pow 16 width)
    (rest : List Char) : ofCode width (hex width c.toNat ++ rest) = (c, rest) := by
  have length := length_hex pos fits
  rw [ofCode, List.take_left' length, List.drop_left' length, ofHex_hex, Char.ofNat_toNat]

/-- The quotes. -/
def IsQuote (quote : Char) : Prop := quote = '\'' ∨ quote = '"'

/-- A text is enclosed by one of the quotes. -/
theorem isQuote_quoteFor (s : List Char) : IsQuote (quoteFor s) := by
  rw [quoteFor]
  split
  · exact .inr rfl
  · exact .inl rfl

/-- What stands for a character inside quotes is read as this character, whatever comes after it. -/
theorem unescape_escape {quote : Char} (isQuote : IsQuote quote) (c : Char) (rest : List Char) :
    unescape (escape quote c ++ rest) = some (c, rest) := by
  unfold escape
  -- In the order of `escape`: a backslash or a quote, the ends of lines and tabs, what is shown as
  -- it is, and the rest by its code.
  split
  · rename_i special
    simp only [Bool.or_eq_true, decide_eq_true_eq] at special
    obtain rfl | rfl : c = '\\' ∨ c = quote := special
    · rfl
    · obtain rfl | rfl := isQuote <;> rfl
  rename_i plain
  simp only [Bool.or_eq_true, decide_eq_true_eq, not_or] at plain
  split
  · subst c; rfl
  split
  · subst c; rfl
  split
  · subst c; rfl
  split
  · simp [unescape, plain.1]
  split
  · exact congrArg some (ofCode_hex (by decide) ‹_› rest)
  split
  · exact congrArg some (ofCode_hex (by decide) ‹_› rest)
  · have fits : c.toNat < Nat.pow 16 8 := c.val.toNat_lt
    exact congrArg some (ofCode_hex (by decide) fits rest)

/-- What stands for a character inside quotes starts with a backslash, or is the character. -/
theorem escape_cases (quote c : Char) :
    (∃ cs, escape quote c = '\\' :: cs) ∨ c ≠ quote ∧ escape quote c = [c] := by
  unfold escape
  split
  · exact .inl ⟨_, rfl⟩
  · rename_i plain
    simp only [Bool.or_eq_true, decide_eq_true_eq, not_or] at plain
    split
    · exact .inl ⟨_, rfl⟩
    split
    · exact .inl ⟨_, rfl⟩
    split
    · exact .inl ⟨_, rfl⟩
    split
    · exact .inr ⟨plain.2, rfl⟩
    split
    · exact .inl ⟨_, rfl⟩
    split <;> exact .inl ⟨_, rfl⟩

/-- What stands for a character inside quotes does not start with the closing quote. -/
theorem escape_append_ne {quote : Char} (isQuote : IsQuote quote) (c : Char)
    (rest after : List Char) : escape quote c ++ rest ≠ quote :: after := by
  have other : '\\' ≠ quote := by
    obtain rfl | rfl := isQuote <;> decide
  obtain ⟨cs, starts⟩ | ⟨plain, same⟩ := escape_cases quote c
  · simp [starts, other]
  · simp [same, plain]

/-- Of what stands inside quotes and after them, the text inside and the part after it are known. -/
theorem flatMap_escape_inj {quote : Char} (isQuote : IsQuote quote) {s s' r r' : List Char}
    (same : s.flatMap (escape quote) ++ quote :: r = s'.flatMap (escape quote) ++ quote :: r') :
    s = s' ∧ r = r' := by
  induction s generalizing s' with
  | nil =>
    cases s' with
    | nil => exact ⟨rfl, (List.cons.inj same).2⟩
    | cons c' s' =>
      rw [List.flatMap_cons, List.append_assoc] at same
      exact absurd same.symm (escape_append_ne isQuote c' _ _)
  | cons c s ih =>
    rw [List.flatMap_cons, List.append_assoc] at same
    cases s' with
    | nil => exact absurd same (escape_append_ne isQuote c _ _)
    | cons c' s' =>
      rw [List.flatMap_cons, List.append_assoc] at same
      -- Both sides are read on by one character, which is the same.
      have read := congrArg unescape same
      rw [unescape_escape isQuote, unescape_escape isQuote] at read
      obtain ⟨rfl, rest⟩ := Prod.mk.inj (Option.some.inj read)
      obtain ⟨rfl, after⟩ := ih rest
      exact ⟨rfl, after⟩

/-- A quoted text shows its text and where it ends. -/
theorem quotedChars_append_inj {s s' r r' : List Char}
    (same : quotedChars s ++ r = quotedChars s' ++ r') : s = s' ∧ r = r' := by
  rw [quotedChars, quotedChars, List.cons_append, List.cons_append, List.append_assoc,
    List.append_assoc] at same
  obtain ⟨quote, inside⟩ := List.cons.inj same
  rw [← quote] at inside
  exact flatMap_escape_inj (isQuote_quoteFor s) inside

/-- A quoted text starts with a quote. -/
theorem quotedChars_eq_cons (s : List Char) :
    ∃ quote cs, IsQuote quote ∧ quotedChars s = quote :: cs :=
  ⟨_, _, isQuote_quoteFor s, rfl⟩

end Lox.Text
