import Lox.Proofs.Token.Lexes

/-!
# The lexical grammar

What a text is made of, said without reading it: which rows of characters are lexemes, which are
passed over, and which texts start with no piece at all. A scan takes at each place the longest
lexeme that there is (`Takes`), unless the text there is passed over (`Discards`) or refused
(`Refuses`). `Reaches` are the places that it comes to, with the tokens that were taken before.
-/

namespace Lox.Lexical

open Lexeme

/-- A row of digits, one at least. -/
def Digits (ds : List Char) : Prop := ds ≠ [] ∧ ∀ d ∈ ds, isDigit d = true

/-- Digits go on with digits. -/
theorem Digits.append {ds es : List Char} (h : Digits ds) (all : ∀ e ∈ es, isDigit e = true) :
    Digits (ds ++ es) :=
  ⟨List.append_ne_nil_of_left_ne_nil h.1 es, List.forall_mem_append.2 ⟨h.2, all⟩⟩

/-- There may be digits in front of digits. -/
theorem Digits.append_left {ds es : List Char} (h : Digits ds) (all : ∀ e ∈ es, isDigit e = true) :
    Digits (es ++ ds) :=
  ⟨List.append_ne_nil_of_right_ne_nil es h.1, List.forall_mem_append.2 ⟨all, h.2⟩⟩

/-- The texts of numbers: digits, and perhaps a point and digits after it. -/
inductive IsNumber : List Char → Prop
  | whole {ds : List Char} : Digits ds → IsNumber ds
  | fraction {ds es : List Char} : Digits ds → Digits es → IsNumber (ds ++ '.' :: es)

/-- The texts of words: a letter, and letters or digits after it. -/
def IsWord (text : List Char) : Prop :=
  ∃ c cs, text = c :: cs ∧ isLetter c = true ∧ ∀ d ∈ cs, isWordPart d = true

/-- The lexemes of each type of token. The content of a token is its lexeme, but that of a string is
without quotes. Signs, operators and reserved words have the text of their type, and all other words
are names. -/
inductive IsLexeme : TokenType → (content raw : List Char) → Prop
  | fixed {type : TokenType} : type.text ≠ "" → IsLexeme type type.text.toList type.text.toList
  | name {word : List Char} : IsWord word → (∀ type : TokenType, type.text.toList ≠ word) →
    IsLexeme .identifier word word
  | number {ds : List Char} : IsNumber ds → IsLexeme .number ds ds
  | string {s : List Char} : '"' ∉ s → IsLexeme .string s ('"' :: (s ++ ['"']))

/-- A row of characters is the longest lexeme that a text starts with. -/
structure Longest (type : TokenType) (content raw text : List Char) : Prop where
  /-- It is a lexeme. -/
  isLexeme : IsLexeme type content raw
  /-- The text starts with it. -/
  isPrefix : raw <+: text
  /-- The text starts with no longer lexeme. -/
  longest : ∀ ⦃type' content' raw'⦄, IsLexeme type' content' raw' → raw' <+: text →
    raw'.length ≤ raw.length

/-- A piece of a text that is passed over: a blank, a comment up to the end of its line or of the
text, or a comment up to the first mark that closes it. -/
inductive Discards : (piece rest : List Char) → Prop
  | blank {c : Char} {rest : List Char} : c ∈ [' ', '\t', '\r', '\n'] → Discards [c] rest
  | line {body rest : List Char} : '\n' ∉ body → (rest = [] ∨ rest.head? = some '\n') →
    Discards ('/' :: '/' :: body) rest
  | block {body rest : List Char} : ¬ ['*', '/'] <:+: body ++ ['*'] →
    Discards ('/' :: '*' :: (body ++ ['*', '/'])) rest

/-- The whole part of a number has several digits, the first of which is zero. -/
def LeadingZero (raw : List Char) : Prop := ∃ d more, raw = '0' :: d :: more ∧ isDigit d = true

/-- A text that starts with no piece, with the code and the cause: a comment or a string that is not
closed, a number with a leading zero that is as long as it can be, or a character that starts
neither a lexeme nor a piece that is passed over. -/
inductive Refuses : (code : String) → LexicalCause → (text : List Char) → Prop
  | comment {cs : List Char} : ¬ ['*', '/'] <:+: cs →
    Refuses "L004" .unterminatedComment ('/' :: '*' :: cs)
  | string {cs : List Char} : '"' ∉ cs →
    Refuses "L002" (.unterminatedString (String.ofList cs)) ('"' :: cs)
  | number {raw text : List Char} : Longest .number raw raw text → LeadingZero raw →
    Refuses "L003" (.invalidNumber (String.ofList raw) LexicalCause.leadingZeroReason) text
  | character {c : Char} {cs : List Char} : c ∉ [' ', '\t', '\r', '\n'] →
    (∀ type content raw, IsLexeme type content raw → raw.head? ≠ some c) →
    Refuses "L001" (.unexpectedCharacter c) (c :: cs)

/-- A lexeme is taken in front of the rest of a text: nothing there is passed over or refused, and
there is no longer lexeme. -/
structure Takes (type : TokenType) (content raw rest : List Char) : Prop where
  kept : ∀ piece rest', piece ++ rest' = raw ++ rest → ¬ Discards piece rest'
  allowed : ∀ code cause, ¬ Refuses code cause (raw ++ rest)
  longest : Longest type content raw (raw ++ rest)

/-- The places that a scan of a text comes to: the characters before such a place, those behind it,
and the tokens that were taken. The line of a token is one more than the number of line ends before
it. -/
inductive Reaches (text : List Char) : (before rest : List Char) → List Token → Prop
  | start : Reaches text [] text []
  | discard {before piece rest : List Char} {ts : List Token} :
    Reaches text before (piece ++ rest) ts → Discards piece rest →
    Reaches text (before ++ piece) rest ts
  | take {before content raw rest : List Char} {type : TokenType} {ts : List Token} :
    Reaches text before (raw ++ rest) ts → Takes type content raw rest →
    Reaches text (before ++ raw) rest (ts ++ [.ofLexeme type content (1 + before.count '\n')])

variable {c : Char} {cs content content' raw text : List Char} {type type' : TokenType}

/-! ## Lexemes by their first character -/

/-- The text of a type is a reserved word, which gives the type, or a sign that starts with neither
a part of a word nor a quote. -/
theorem text_cases (shown : type.text.toList = c :: cs) :
    (isLetter c = true ∧ (∀ d ∈ cs, isWordPart d = true) ∧
      TokenType.ofWord (String.ofList (c :: cs)) = type) ∨
    (isWordPart c = false ∧ c ≠ '"') := by
  have all : ∀ type ∈ TokenType.all, type.text.toList.head?.all (fun c =>
      isLetter c && type.text.toList.tail.all isWordPart && TokenType.ofWord type.text == type ||
        !isWordPart c && c != '"') = true := by
    decide
  have known := all type (TokenType.mem_all type)
  have word : String.ofList (c :: cs) = type.text := by rw [← shown, String.ofList_toList]
  rw [shown, ← word] at known
  simpa [and_assoc] using known

/-- Two types with the same text, if they have one, are the same. -/
theorem text_injective (same : type.text = type'.text) (some : type.text ≠ "") : type = type' := by
  have all : ∀ type ∈ TokenType.all, ∀ type' ∈ TokenType.all,
      type.text = type'.text → type.text ≠ "" → type = type' := by decide
  exact all type (TokenType.mem_all type) type' (TokenType.mem_all type') same some

/-- A word that is the text of no type is a name. -/
theorem ofWord_eq_identifier (free : ∀ type : TokenType, type.text.toList ≠ text) :
    TokenType.ofWord (String.ofList text) = .identifier := by
  have reserved : ∀ entry ∈ TokenType.keywords, entry.2.text = entry.1 := by decide
  rw [TokenType.ofWord]
  cases found : TokenType.keywords.lookup (String.ofList text) with
  | none => rfl
  | some type =>
    have same := reserved _ (TokenType.mem_of_lookup found)
    exact absurd (by rw [same, String.toList_ofList]) (free type)

/-- A letter and parts of a word after it are a lexeme, be it reserved or a name. -/
theorem isLexeme_word (letter : isLetter c = true) (all : ∀ d ∈ cs, isWordPart d = true) :
    IsLexeme (TokenType.ofWord (String.ofList (c :: cs))) (c :: cs) (c :: cs) := by
  by_cases reserved : ∃ type : TokenType, type.text.toList = c :: cs
  · obtain ⟨type, shown⟩ := reserved
    rcases text_cases shown with ⟨-, -, eq⟩ | ⟨other, -⟩
    · rw [eq, ← shown]
      refine .fixed fun empty => ?_
      rw [empty] at shown
      cases shown
    · rw [isWordPart, letter] at other
      cases other
  · have free : ∀ type : TokenType, type.text.toList ≠ c :: cs := fun type same =>
      reserved ⟨type, same⟩
    rw [ofWord_eq_identifier free]
    exact .name ⟨c, cs, rfl, letter, all⟩ free

/-- A number starts with a digit. -/
theorem IsNumber.isDigit_head (h : IsNumber (c :: cs)) : isDigit c = true := by
  generalize shown : c :: cs = text at h
  cases h with
  | whole digits =>
    subst shown
    exact digits.2 c (List.mem_cons_self ..)
  | @fraction ds es digits more =>
    obtain ⟨d, ds, rfl⟩ := List.exists_cons_of_ne_nil digits.1
    rw [List.cons_append] at shown
    obtain ⟨rfl, -⟩ := List.cons.inj shown
    exact digits.2 c (List.mem_cons_self ..)

/-- What the first character says of a lexeme: it is a number, a word, a string or a sign. -/
theorem IsLexeme.cases_head (h : IsLexeme type content (c :: cs)) :
    (isDigit c = true ∧ type = .number ∧ content = c :: cs ∧ IsNumber (c :: cs)) ∨
    (isLetter c = true ∧ type = TokenType.ofWord (String.ofList (c :: cs)) ∧ content = c :: cs ∧
      ∀ d ∈ cs, isWordPart d = true) ∨
    (c = '"' ∧ type = .string ∧ cs = content ++ ['"'] ∧ '"' ∉ content) ∨
    (isWordPart c = false ∧ c ≠ '"' ∧ type.text.toList = c :: cs ∧ content = c :: cs) := by
  -- The text is generalized, as the cases of a lexeme name their own.
  generalize shown : c :: cs = raw at h
  cases h with
  | fixed some =>
    rcases text_cases shown.symm with ⟨letter, all, eq⟩ | ⟨other, quote⟩
    · exact .inr (.inl ⟨letter, by rw [← shown, eq], rfl, all⟩)
    · exact .inr (.inr (.inr ⟨other, quote, rfl, rfl⟩))
  | name word free =>
    obtain ⟨d, ds, rfl, letter, all⟩ := word
    obtain ⟨rfl, rfl⟩ := List.cons.inj shown
    exact .inr (.inl ⟨letter, (ofWord_eq_identifier free).symm, rfl, all⟩)
  | number number =>
    subst shown
    exact .inl ⟨number.isDigit_head, rfl, rfl, number⟩
  | string closed =>
    obtain ⟨rfl, rfl⟩ := List.cons.inj shown
    exact .inr (.inr (.inl ⟨rfl, rfl, rfl, closed⟩))

/-- A lexeme that starts with a digit is a number. -/
theorem IsLexeme.of_digit (h : IsLexeme type content (c :: cs)) (digit : isDigit c = true) :
    type = .number ∧ content = c :: cs ∧ IsNumber (c :: cs) := by
  rcases h.cases_head with ⟨-, number⟩ | ⟨letter, -⟩ | ⟨rfl, -⟩ | ⟨other, -⟩
  · exact number
  · rw [isDigit_of_letter letter] at digit
    cases digit
  · cases digit
  · rw [isWordPart, digit, Bool.or_true] at other
    cases other

/-- A lexeme that starts with a letter is a word. -/
theorem IsLexeme.of_letter (h : IsLexeme type content (c :: cs)) (letter : isLetter c = true) :
    type = TokenType.ofWord (String.ofList (c :: cs)) ∧ content = c :: cs ∧
      ∀ d ∈ cs, isWordPart d = true := by
  rcases h.cases_head with ⟨digit, -⟩ | ⟨-, word⟩ | ⟨rfl, -⟩ | ⟨other, -⟩
  · rw [isDigit_of_letter letter] at digit
    cases digit
  · exact word
  · cases letter
  · rw [isWordPart, letter, Bool.true_or] at other
    cases other

/-- A lexeme that starts with a quote is a string. -/
theorem IsLexeme.of_quote (h : IsLexeme type content ('"' :: cs)) :
    type = .string ∧ cs = content ++ ['"'] ∧ '"' ∉ content := by
  rcases h.cases_head with ⟨digit, -⟩ | ⟨letter, -⟩ | ⟨-, string⟩ | ⟨-, quote, -⟩
  · cases digit
  · cases letter
  · exact string
  · exact absurd rfl quote

/-- A lexeme that starts in another way is a sign. -/
theorem IsLexeme.of_sign (h : IsLexeme type content (c :: cs)) (other : isWordPart c = false)
    (quote : c ≠ '"') : type.text.toList = c :: cs ∧ content = c :: cs := by
  rw [isWordPart, Bool.or_eq_false_iff] at other
  rcases h.cases_head with ⟨digit, -⟩ | ⟨letter, -⟩ | ⟨rfl, -⟩ | ⟨-, -, sign⟩
  · rw [other.2] at digit
    cases digit
  · rw [other.1] at letter
    cases letter
  · exact absurd rfl quote
  · exact sign

/-- No lexeme is empty. -/
theorem IsLexeme.ne_nil (h : IsLexeme type content raw) : raw ≠ [] := by
  cases h with
  | fixed some => exact fun empty => some (String.toList_eq_nil_iff.1 empty)
  | name word free =>
    obtain ⟨c, cs, rfl, -⟩ := word
    exact List.cons_ne_nil c cs
  | number number =>
    cases number with
    | whole digits => exact digits.1
    | fraction digits => exact List.append_ne_nil_of_left_ne_nil digits.1 _
  | string => exact List.cons_ne_nil _ _

/-- A lexeme has one type and one content. -/
theorem IsLexeme.unique (h : IsLexeme type content raw) (h' : IsLexeme type' content' raw) :
    type = type' ∧ content = content' := by
  obtain ⟨c, cs, rfl⟩ := List.exists_cons_of_ne_nil h.ne_nil
  rcases h.cases_head with ⟨digit, rfl, rfl, -⟩ | ⟨letter, rfl, rfl, -⟩ | ⟨rfl, rfl, rfl, -⟩ |
    ⟨other, quote, shown, rfl⟩
  · obtain ⟨rfl, rfl, -⟩ := h'.of_digit digit
    exact ⟨rfl, rfl⟩
  · obtain ⟨rfl, rfl, -⟩ := h'.of_letter letter
    exact ⟨rfl, rfl⟩
  · obtain ⟨rfl, same, -⟩ := h'.of_quote
    exact ⟨rfl, List.append_cancel_right same⟩
  · obtain ⟨shown', rfl⟩ := h'.of_sign other quote
    refine ⟨text_injective (String.toList_inj.1 (shown.trans shown'.symm)) fun empty => ?_, rfl⟩
    rw [empty] at shown
    cases shown

end Lox.Lexical
