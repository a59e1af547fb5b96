import Lox.Proofs.Decimal.Round
import Lox.Proofs.Token.Lexes
import Lox.Proofs.Tree.Shape

/-!
# The tokens that a text can give

A token that was read from a text is what it is read back as: names are words that are not reserved,
strings hold no quote, numbers have a value without a sign, and all other tokens have the text of
their type (`valid_of_feedFrom`).
-/

namespace Lox

open Lexeme Token

/-- A token is as one that was read from a text. -/
structure Token.Valid (t : Token) : Prop where
  /-- A name is a word that is not reserved, and nothing else. -/
  name : t.type = .identifier → t.IsName ∧ t.NamesWord
  /-- A string has a text, without quotes. -/
  string : t.type = .string → ∃ s, t.lexeme = some s ∧ '"' ∉ s.toList
  /-- A number has a value, without a sign. -/
  number : t.type = .number → ∃ x, t.literal = some x ∧ x.Plain
  /-- Signs and reserved words have the text of their type, and nothing else. -/
  sign : t.type.text ≠ "" → t.IsSign t.type

namespace Lexeme

variable {c : Char} {cs lexeme : List Char} {type : TokenType}

/-- The mark of the end is as one that was read. -/
theorem valid_eof : Token.eof.Valid where
  name := fun other => absurd other (by decide)
  string := fun other => absurd other (by decide)
  number := fun other => absurd other (by decide)
  sign := fun some => absurd rfl some

/-- A token with the text of its type is as one that was read. -/
theorem valid_sign (some : type.text ≠ "") (same : unplaced type lexeme = .sign type) (line : Nat) :
    (Token.ofLexeme type lexeme line).Valid where
  name := by
    rintro rfl
    exact absurd rfl some
  string := by
    rintro rfl
    exact absurd rfl some
  number := by
    rintro rfl
    exact absurd rfl some
  sign := fun _ => same

/-- A text without quotes is as a string that was read. -/
theorem valid_string {line : Nat} (closed : '"' ∉ lexeme) :
    (Token.ofLexeme .string lexeme line).Valid where
  name := fun other => absurd other (by decide : TokenType.string ≠ .identifier)
  string := fun _ => ⟨_, rfl, by rwa [String.toList_ofList]⟩
  number := fun other => absurd other (by decide : TokenType.string ≠ .number)
  sign := fun some => absurd rfl some

/-- A number is as one that was read, whatever its digits are. -/
theorem valid_number (lexeme : List Char) (line : Nat) :
    (Token.ofLexeme .number lexeme line).Valid where
  name := fun other => absurd other (by decide : TokenType.number ≠ .identifier)
  string := fun other => absurd other (by decide : TokenType.number ≠ .string)
  number := fun _ => ⟨_, rfl, Decimal.toBinary64_negative _, Decimal.toBinary64_isNaN _⟩
  sign := fun some => absurd rfl some

/-- A word that is not reserved is as a name that was read. -/
theorem valid_name {line : Nat} (h : IsName lexeme) :
    (Token.ofLexeme .identifier lexeme line).Valid where
  name := fun _ => by
    refine ⟨rfl, ?_⟩
    change IsName (String.ofList lexeme).toList
    rwa [String.toList_ofList]
  string := fun other => absurd other (by decide : TokenType.identifier ≠ .string)
  number := fun other => absurd other (by decide : TokenType.identifier ≠ .number)
  sign := fun some => absurd rfl some

/-- A string is what stands between two quotes. -/
theorem valid_cutString (h : (cutString cs).piece = .token type lexeme) (line : Nat) :
    (Token.ofLexeme type lexeme line).Valid := by
  unfold cutString at h
  split at h
  · obtain ⟨rfl, rfl⟩ := Piece.token.inj h
    have all := List.all_eq_true.1 (List.all_takeWhile (l := cs) (p := (· != '"')))
    refine valid_string fun mem => ?_
    exact bne_iff_ne.1 (all '"' mem) rfl
  · cases h

/-- A number has the value that it denotes. -/
theorem valid_cutNumber (h : (cutNumber c cs).piece = .token type lexeme) (line : Nat) :
    (Token.ofLexeme type lexeme line).Valid := by
  unfold cutNumber at h
  dsimp only at h
  split at h
  · cases h
  · obtain ⟨rfl, rfl⟩ := Piece.token.inj h
    exact valid_number _ line

/-- A word is reserved, or else a name. -/
theorem valid_cutWord (letter : isLetter c = true)
    (h : (cutWord c cs).piece = .token type lexeme) (line : Nat) :
    (Token.ofLexeme type lexeme line).Valid := by
  obtain ⟨rfl, rfl⟩ := Piece.token.inj h
  have all := List.all_eq_true.1 (List.all_takeWhile (l := cs) (p := isWordPart))
  generalize cs.takeWhile isWordPart = word at all ⊢
  cases found : TokenType.keywords.lookup (String.ofList (c :: word)) with
  | some type =>
    -- The table of reserved words is checked once, entry by entry.
    have reserved : ∀ entry ∈ TokenType.keywords, entry.2.text ≠ "" ∧
        unplaced entry.2 entry.1.toList = .sign entry.2 := by decide
    obtain ⟨some, same⟩ := reserved _ (TokenType.mem_of_lookup found)
    rw [String.toList_ofList] at same
    rw [TokenType.ofWord, found]
    exact valid_sign some same line
  | none =>
    have shown : TokenType.ofWord (String.ofList (c :: word)) = .identifier := by
      rw [TokenType.ofWord, found]
      rfl
    rw [shown]
    exact valid_name ⟨c, word, rfl, letter, all, shown⟩

/-- The first piece of a text is as a token that was read, if it is one. -/
theorem valid_cut (h : (cut c cs).piece = .token type lexeme) (line : Nat) :
    (Token.ofLexeme type lexeme line).Valid := by
  have signs : ∀ entry ∈ TokenType.punctuators, entry.2.text ≠ "" ∧
      unplaced entry.2 [entry.1] = .sign entry.2 := by decide
  have pairs : ∀ entry ∈ TokenType.equalsPairs,
      (entry.2.1.text ≠ "" ∧ unplaced entry.2.1 [entry.1] = .sign entry.2.1) ∧
      (entry.2.2.text ≠ "" ∧ unplaced entry.2.2 [entry.1, '='] = .sign entry.2.2) := by decide
  -- The cases are those of the scan, in its order.
  unfold cut at h
  split at h
  · cases h
  split at h
  · rename_i found
    obtain ⟨rfl, rfl⟩ := Piece.token.inj h
    obtain ⟨some, same⟩ := signs _ (TokenType.mem_of_lookup found)
    exact valid_sign some same line
  · rename_i found
    obtain ⟨⟨some, same⟩, some', same'⟩ := pairs _ (TokenType.mem_of_lookup found)
    unfold cutOperator at h
    split at h
    · obtain ⟨rfl, rfl⟩ := Piece.token.inj h
      exact valid_sign some' same' line
    · obtain ⟨rfl, rfl⟩ := Piece.token.inj h
      exact valid_sign some same line
  split at h
  · unfold cutSlash at h
    split at h
    · cases h
    · split at h <;> cases h
    · obtain ⟨rfl, rfl⟩ := Piece.token.inj h
      exact valid_sign (by decide) rfl line
  split at h
  · exact valid_cutString h line
  split at h
  · exact valid_cutNumber h line
  split at h
  · rename_i letter
    exact valid_cutWord letter h line
  · cases h

/-- All tokens that a text gives are valid. -/
theorem valid_of_feedFrom (line : Nat) (text : List Char) :
    ∀ t ∈ (feedFrom line text).tokens, t.Valid := by
  fun_induction feedFrom line text with
  | case1 line =>
    intro t mem
    obtain rfl := List.mem_singleton.1 mem
    exact valid_eof
  | case2 line c cs blank ih => exact ih
  | case3 line c cs type lexeme token ih =>
    intro t mem
    rcases List.mem_cons.1 mem with rfl | mem
    · exact valid_cut token line
    · exact ih t mem
  | case4 line c cs cause fault => exact List.forall_mem_nil _

/-- A text without a fault gives tokens and then the mark of the end. -/
theorem exists_tokens {line : Nat} {text : List Char} (clear : (feedFrom line text).fault = none) :
    ∃ ts, (feedFrom line text).tokens = ts ++ [.eof] ∧ ∀ t ∈ ts, t.isEof = false := by
  fun_induction feedFrom line text with
  | case1 line => exact ⟨[], rfl, List.forall_mem_nil _⟩
  | case2 line c cs blank ih => exact ih clear
  | case3 line c cs type lexeme token ih =>
    obtain ⟨ts, split, others⟩ := ih clear
    refine ⟨.ofLexeme type lexeme line :: ts, by rw [Feed.push, split, List.cons_append], ?_⟩
    rw [List.forall_mem_cons]
    exact ⟨by simp [Token.isEof, Token.ofLexeme, type_ne_eof token], others⟩
  | case4 line c cs cause fault => cases clear

end Lexeme

/-- All tokens that a file gives are valid. -/
theorem valid_of_scan (source : String) : ∀ t ∈ (scan source).tokens, t.Valid :=
  valid_of_feedFrom 1 source.toList

end Lox
