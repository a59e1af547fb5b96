import Lox.Token.Fault

/-!
# The first piece of a text

`cut c cs` splits the text `c :: cs` after its first piece: a blank character or a comment, the
lexeme of a token, or a text that starts no token. `taken_append_rest` says that nothing is lost,
and `length_rest_lt` that something is taken, which is why reading piece by piece ends.
-/

namespace Lox.Lexeme

/-- A decimal digit; digits of other scripts are not. -/
def isDigit (c : Char) : Bool := '0' ≤ c && c ≤ '9'

/-- A character that can start a word: an ASCII letter or an underscore. -/
def isLetter (c : Char) : Bool := ('a' ≤ c && c ≤ 'z') || ('A' ≤ c && c ≤ 'Z') || c == '_'

/-- A character that can stand inside a word. -/
def isWordPart (c : Char) : Bool := isLetter c || isDigit c

/-- A character between tokens. -/
def isBlank (c : Char) : Bool := c == ' ' || c == '\t' || c == '\r' || c == '\n'

/-- What the first piece of a text is. -/
inductive Piece
  /-- A blank character or a comment. -/
  | blank
  /-- The text of a token, a string without its quotes. -/
  | token (type : TokenType) (lexeme : List Char)
  /-- No token. -/
  | fault (cause : LexicalCause)
  deriving DecidableEq

/-- A text, cut after its first piece. -/
structure Cut where
  /-- What the first piece is. -/
  piece : Piece
  /-- Its characters. -/
  taken : List Char
  /-- The characters after it. -/
  rest : List Char
  deriving DecidableEq

/-- Splits the text inside a block comment after the first `*/`, if there is one. -/
def closeComment : List Char → Option (List Char × List Char)
  | '*' :: '/' :: rest => some (['*', '/'], rest)
  | c :: rest => (closeComment rest).map fun (body, rest) => (c :: body, rest)
  | [] => none

/-- The piece that starts with a slash. -/
def cutSlash : List Char → Cut
  | '/' :: cs =>
    ⟨.blank, '/' :: '/' :: cs.takeWhile (· != '\n'), cs.dropWhile (· != '\n')⟩
  | '*' :: cs =>
    match closeComment cs with
    | some (body, rest) => ⟨.blank, '/' :: '*' :: body, rest⟩
    | none => ⟨.fault .unterminatedComment, '/' :: '*' :: cs, []⟩
  | cs => ⟨.token .slash ['/'], ['/'], cs⟩

/-- The piece that starts with a quote. -/
def cutString (cs : List Char) : Cut :=
  let content := cs.takeWhile (· != '"')
  match cs.dropWhile (· != '"') with
  | quote :: rest => ⟨.token .string content, '"' :: (content ++ [quote]), rest⟩
  | [] => ⟨.fault (.unterminatedString (String.ofList content)), '"' :: content, []⟩

/-- Splits the text after the whole digits of a number behind its point and the digits after that. A
point that no digit follows is not part of the number. -/
def cutFraction : List Char → List Char × List Char
  | '.' :: d :: cs =>
    if isDigit d then ('.' :: d :: cs.takeWhile isDigit, cs.dropWhile isDigit)
    else ([], '.' :: d :: cs)
  | cs => ([], cs)

/-- The piece that starts with a digit. -/
def cutNumber (c : Char) (cs : List Char) : Cut :=
  let whole := c :: cs.takeWhile isDigit
  let (fraction, rest) := cutFraction (cs.dropWhile isDigit)
  let lexeme := whole ++ fraction
  if c = '0' && 1 < whole.length then
    ⟨.fault (.invalidNumber (String.ofList lexeme) LexicalCause.leadingZeroReason), lexeme, rest⟩
  else ⟨.token .number lexeme, lexeme, rest⟩

/-- The piece that starts with a letter. -/
def cutWord (c : Char) (cs : List Char) : Cut :=
  let word := c :: cs.takeWhile isWordPart
  ⟨.token (TokenType.ofWord (String.ofList word)) word, word, cs.dropWhile isWordPart⟩

/-- The piece that starts with an operator which an equals sign may follow. -/
def cutOperator (c : Char) (alone withEquals : TokenType) : List Char → Cut
  | '=' :: cs => ⟨.token withEquals [c, '='], [c, '='], cs⟩
  | cs => ⟨.token alone [c], [c], cs⟩

/-- Cuts a text after its first piece. -/
def cut (c : Char) (cs : List Char) : Cut :=
  if isBlank c then ⟨.blank, [c], cs⟩
  else
    match TokenType.punctuators.lookup c, TokenType.equalsPairs.lookup c with
    | some type, _ => ⟨.token type [c], [c], cs⟩
    | none, some (alone, withEquals) => cutOperator c alone withEquals cs
    | none, none =>
      if c = '/' then cutSlash cs
      else if c = '"' then cutString cs
      else if isDigit c then cutNumber c cs
      else if isLetter c then cutWord c cs
      else ⟨.fault (.unexpectedCharacter c), [c], cs⟩

/-- Closing a comment splits its text. -/
theorem append_of_closeComment {cs body rest : List Char}
    (h : closeComment cs = some (body, rest)) : body ++ rest = cs := by
  fun_induction closeComment cs generalizing body with
  | case1 =>
    simp only [Option.some.injEq, Prod.mk.injEq] at h
    obtain ⟨rfl, rfl⟩ := h
    rfl
  | case2 c cs _ ih =>
    obtain ⟨⟨b, r⟩, hb, e⟩ := Option.map_eq_some_iff.1 h
    simp only [Prod.mk.injEq] at e
    obtain ⟨rfl, rfl⟩ := e
    simp [ih hb]
  | case3 => simp at h

/-- Cutting off a fraction splits the text. -/
theorem append_of_cutFraction (cs : List Char) : (cutFraction cs).1 ++ (cutFraction cs).2 = cs := by
  fun_cases cutFraction cs <;> simp [List.takeWhile_append_dropWhile]

/-- The piece and the rest make up the text. -/
theorem taken_append_rest (c : Char) (cs : List Char) :
    (cut c cs).taken ++ (cut c cs).rest = c :: cs := by
  -- The cases are those of the scan, in its order.
  unfold cut
  split
  · rfl
  split
  · rfl
  · fun_cases cutOperator <;> rfl
  split
  · subst_vars
    fun_cases cutSlash cs
    · simp [List.takeWhile_append_dropWhile]
    · rename_i h
      simp [append_of_closeComment h]
    · simp
    · simp
  split
  · subst_vars
    unfold cutString
    have := List.takeWhile_append_dropWhile (p := (· != '"')) (l := cs)
    split <;> simp_all
  split
  · unfold cutNumber
    have h := append_of_cutFraction (cs.dropWhile isDigit)
    grind [List.takeWhile_append_dropWhile]
  split
  · simp [cutWord, List.takeWhile_append_dropWhile]
  · rfl

/-- Every piece has a character. -/
theorem taken_ne_nil (c : Char) (cs : List Char) : (cut c cs).taken ≠ [] := by
  unfold cut
  split
  · simp
  split
  · simp
  · fun_cases cutOperator <;> simp
  split
  · fun_cases cutSlash cs <;> simp
  split
  · unfold cutString
    split <;> simp
  split
  · unfold cutNumber
    grind
  split <;> simp [cutWord]

/-- What follows the first piece is shorter than the text. -/
theorem length_rest_lt (c : Char) (cs : List Char) : (cut c cs).rest.length < (c :: cs).length := by
  rw [← taken_append_rest c cs, List.length_append]
  have := List.length_pos_iff.2 (taken_ne_nil c cs)
  omega

/-- No piece of a text is the mark of the end. -/
theorem type_ne_eof {c : Char} {cs lexeme : List Char} {type : TokenType}
    (h : (cut c cs).piece = .token type lexeme) : type ≠ .eof := by
  have signs : ∀ entry ∈ TokenType.punctuators, entry.2 ≠ .eof := by decide
  have pairs : ∀ entry ∈ TokenType.equalsPairs, entry.2.1 ≠ .eof ∧ entry.2.2 ≠ .eof := by decide
  -- The cases are those of the scan, in its order.
  unfold cut at h
  split at h
  · simp at h
  split at h
  · rename_i found
    simp only [Piece.token.injEq] at h
    exact h.1 ▸ signs _ (TokenType.mem_of_lookup found)
  · rename_i found
    have := pairs _ (TokenType.mem_of_lookup found)
    unfold cutOperator at h
    split at h <;> simp_all
  split at h
  · unfold cutSlash at h
    grind
  split at h
  · unfold cutString at h
    grind
  split at h
  · unfold cutNumber at h
    grind
  split at h
  · simp only [cutWord, Piece.token.injEq] at h
    exact h.1 ▸ TokenType.ofWord_ne_eof _
  · simp at h

end Lox.Lexeme
