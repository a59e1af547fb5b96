import Lox.Proofs.Tree.Erased
import Lox.Proofs.Tree.Legible
import Lox.Token.Reader

/-!
# The tokens of a text

`Lexes` says which tokens a text gives, and `Spells` that a text gives some tokens in front of
whatever may follow it. A token ends where it does because of what comes next: what follows a word
or a number must not go on with it (`isLoose`), and what follows an operator must not be an equals
sign. There is one lemma for each kind of token, and none of them looks at lines.
-/

namespace Lox.Lexeme

/-- The token of a lexeme, without a line. -/
def unplaced (type : TokenType) (lexeme : List Char) : Token :=
  ⟨type, some (String.ofList lexeme), none, Token.valueOf type lexeme⟩

/-- A text gives some tokens and then the mark of the end, on whatever line it starts. -/
def Lexes (text : List Char) (ts : List Token) : Prop :=
  ∀ line, (feedFrom line text).fault = none ∧
    (feedFrom line text).tokens.map Token.erased = ts ++ [.eof]

/-- A text goes on with no word and no number that stands in front of it. -/
def isLoose : List Char → Bool
  | [] => true
  | c :: cs => !isWordPart c && (c != '.' || !cs.head?.any isDigit)

/-- A text gives some tokens, and leaves what follows it alone. -/
def Spells (text : List Char) (ts : List Token) : Prop :=
  ∀ ⦃rest us⦄, isLoose rest = true → Lexes rest us → Lexes (text ++ rest) (ts ++ us)

variable {c : Char} {cs text rest : List Char} {t : Token} {ts us : List Token}

/-! ## Pieces -/

/-- A first piece that is blank gives nothing. -/
theorem feedFrom_of_blank {taken : List Char} (shown : cut c cs = ⟨.blank, taken, rest⟩)
    (line : Nat) : feedFrom line (c :: cs) = feedFrom (lineAfter line taken) rest := by
  conv => lhs; unfold feedFrom
  simp only [shown]

/-- A first piece that is a token gives this token before the others. -/
theorem feedFrom_of_token {type : TokenType} {lexeme taken : List Char}
    (shown : cut c cs = ⟨.token type lexeme, taken, rest⟩) (line : Nat) :
    feedFrom line (c :: cs) =
      (feedFrom (lineAfter line taken) rest).push (.ofLexeme type lexeme line) := by
  conv => lhs; unfold feedFrom
  simp only [shown]

/-- No text gives no tokens. -/
theorem lexes_nil : Lexes [] [] := fun line => by
  unfold feedFrom
  exact ⟨rfl, rfl⟩

/-- A blank in front of a text gives nothing. -/
theorem lexes_blank (blank : isBlank c = true) (h : Lexes rest us) : Lexes (c :: rest) us := by
  intro line
  have shown : cut c rest = ⟨.blank, [c], rest⟩ := by rw [cut, if_pos blank]
  rw [feedFrom_of_blank shown]
  exact h _

/-- A first piece that is a token gives this token. -/
theorem lexes_token {type : TokenType} {lexeme taken : List Char}
    (shown : cut c cs = ⟨.token type lexeme, taken, rest⟩) (h : Lexes rest us) :
    Lexes (c :: cs) (unplaced type lexeme :: us) := by
  intro line
  obtain ⟨clear, tokens⟩ := h (lineAfter line taken)
  rw [feedFrom_of_token shown]
  refine ⟨clear, ?_⟩
  rw [Feed.push, List.map_cons, tokens]
  rfl

/-- Blanks in front of a text give nothing. -/
theorem lexes_blanks {indent : List Char} (blank : ∀ c ∈ indent, isBlank c = true)
    (h : Lexes rest us) : Lexes (indent ++ rest) us := by
  induction indent with
  | nil => exact h
  | cons c indent ih =>
    exact lexes_blank (blank c (List.mem_cons_self ..))
      (ih fun d mem => blank d (List.mem_cons_of_mem _ mem))

/-- A text with blanks in front of it spells what it does without them. -/
theorem spells_blanks {indent : List Char} (blank : ∀ c ∈ indent, isBlank c = true)
    (h : Spells text ts) : Spells (indent ++ text) ts := by
  intro rest us loose more
  rw [List.append_assoc]
  exact lexes_blanks blank (h loose more)

/-! ## Words and numbers -/

/-- No character of a word is found in the tables of signs. -/
theorem signs_of_wordPart (part : isWordPart c = true) :
    isBlank c = false ∧ TokenType.punctuators.lookup c = none ∧
      TokenType.equalsPairs.lookup c = none ∧ c ≠ '/' ∧ c ≠ '"' := by
  have blanks : ∀ d, isBlank d = true → isWordPart d = false := by
    intro d blank
    simp only [isBlank, Bool.or_eq_true, beq_iff_eq] at blank
    rcases blank with ((rfl | rfl) | rfl) | rfl <;> decide
  have signs : ∀ entry ∈ TokenType.punctuators, isWordPart entry.1 = false := by decide
  have pairs : ∀ entry ∈ TokenType.equalsPairs, isWordPart entry.1 = false := by decide
  refine ⟨?_, ?_, ?_, ?_, ?_⟩
  · cases blank : isBlank c with
    | false => rfl
    | true => simp [blanks c blank] at part
  · cases found : TokenType.punctuators.lookup c with
    | none => rfl
    | some type => simp [signs _ (TokenType.mem_of_lookup found)] at part
  · cases found : TokenType.equalsPairs.lookup c with
    | none => rfl
    | some type => simp [pairs _ (TokenType.mem_of_lookup found)] at part
  · rintro rfl
    cases part
  · rintro rfl
    cases part

/-- No letter is a digit. -/
theorem isDigit_of_letter (letter : isLetter c = true) : isDigit c = false := by
  rw [← Bool.not_eq_true]
  intro digit
  simp only [isLetter, isDigit, Bool.or_eq_true, Bool.and_eq_true, decide_eq_true_eq,
    beq_iff_eq, Char.le_def, UInt32.le_iff_toNat_le] at letter digit
  have low : ('0' : Char).val.toNat = 48 := rfl
  have high : ('9' : Char).val.toNat = 57 := rfl
  have a : ('a' : Char).val.toNat = 97 := rfl
  have upper : ('A' : Char).val.toNat = 65 := rfl
  -- All letters come behind the digits, and so does the underscore.
  rcases letter with (⟨first, -⟩ | ⟨first, -⟩) | rfl
  · omega
  · omega
  · exact absurd digit (by decide)

/-- What is taken of a text that goes on with nothing of the kind is all of its start. -/
theorem span_append {p : Char → Bool} (rest : List Char) (all : ∀ d ∈ cs, p d = true)
    (stop : ∀ d ∈ rest.head?, p d = false) :
    (cs ++ rest).takeWhile p = cs ∧ (cs ++ rest).dropWhile p = rest := by
  rw [List.takeWhile_append_of_pos all, List.dropWhile_append_of_pos all]
  cases rest with
  | nil => exact ⟨by simp, rfl⟩
  | cons d rest =>
    have stop := stop d rfl
    exact ⟨by simp [stop], by simp [stop]⟩

/-- What is loose starts with no part of a word. -/
theorem stop_of_loose (loose : isLoose rest = true) : ∀ d ∈ rest.head?, isWordPart d = false := by
  intro d mem
  cases rest with
  | nil => cases mem
  | cons c cs =>
    obtain rfl := Option.some.inj mem
    simp only [isLoose, Bool.and_eq_true, Bool.not_eq_true'] at loose
    exact loose.1

/-- A letter and parts of a word after it are the word that they make. -/
theorem spells_letters (letter : isLetter c = true) (all : ∀ d ∈ cs, isWordPart d = true) :
    Spells (c :: cs) [unplaced (TokenType.ofWord (String.ofList (c :: cs))) (c :: cs)] := by
  intro rest us loose more
  obtain ⟨blank, sign, pair, slash, quote⟩ :=
    signs_of_wordPart (c := c) (by rw [isWordPart, letter, Bool.true_or])
  obtain ⟨taken, left⟩ := span_append rest all (stop_of_loose loose)
  have shown : cut c (cs ++ rest) =
      ⟨.token (TokenType.ofWord (String.ofList (c :: cs))) (c :: cs), c :: cs, rest⟩ := by
    simp only [cut, blank, sign, pair, slash, quote, isDigit_of_letter letter, letter, cutWord,
      taken, left]
    rfl
  exact lexes_token shown more

/-- A word that is not reserved is a name. -/
theorem spells_name (h : t.NamesWord) : Spells t.chars [t.asName] := by
  obtain ⟨c, cs, shown, letter, all, word⟩ := h
  have spells := spells_letters letter all
  rw [← shown, word] at spells
  rwa [Token.asName, Token.plain, ← String.ofList_toList (s := t.spelling)]

/-- The text that stands for a name starts with a letter. -/
theorem isLetter_of_name (h : t.NamesWord) : ∃ c cs, t.chars = c :: cs ∧ isLetter c = true := by
  obtain ⟨c, cs, shown, letter, -, -⟩ := h
  exact ⟨c, cs, shown, letter⟩

/-- A point that a name follows goes on with nothing. -/
theorem isLoose_property (h : t.NamesWord) : isLoose ('.' :: (t.chars ++ rest)) = true := by
  obtain ⟨c, cs, shown, letter⟩ := isLetter_of_name h
  rw [shown, List.cons_append, isLoose, List.head?_cons, Option.any_some, isDigit_of_letter letter]
  decide

/-- A text is digits, with a point and more digits or without, and the first of several digits
before the point is not zero. -/
def IsNumeral (text : List Char) : Prop :=
  ∃ c cs fraction, text = c :: cs ++ fraction ∧ isDigit c = true ∧
    (∀ d ∈ cs, isDigit d = true) ∧ (c = '0' → cs = []) ∧
    (fraction = [] ∨ ∃ d ds, fraction = '.' :: d :: ds ∧ ∀ e ∈ d :: ds, isDigit e = true)

/-- What is loose starts with no digit. -/
theorem isDigit_of_loose (loose : isLoose rest = true) : ∀ d ∈ rest.head?, isDigit d = false := by
  intro d mem
  have other := stop_of_loose loose d mem
  rw [isWordPart, Bool.or_eq_false_iff] at other
  exact other.2

/-- A point with digits behind it, or nothing, is all that is cut off as a fraction if what follows
is loose. -/
theorem cutFraction_append {fraction : List Char}
    (point : fraction = [] ∨ ∃ d ds, fraction = '.' :: d :: ds ∧ ∀ e ∈ d :: ds, isDigit e = true)
    (loose : isLoose rest = true) : cutFraction (fraction ++ rest) = (fraction, rest) := by
  rcases point with rfl | ⟨d, ds, rfl, areDigits⟩
  · rw [List.nil_append]
    -- A point may follow, but then no digit comes behind it.
    fun_cases cutFraction rest with
    | case1 e es digit => simp [isLoose, digit] at loose
    | case2 => rfl
    | case3 => rfl
  · obtain ⟨taken, left⟩ := span_append rest
      (fun e mem => areDigits e (List.mem_cons_of_mem _ mem)) (isDigit_of_loose loose)
    simp only [List.cons_append, cutFraction, areDigits d (List.mem_cons_self ..), if_true, taken,
      left]

/-- A numeral in front of a text that does not go on with it is the first piece there. -/
theorem cut_of_numeral (h : IsNumeral (c :: cs)) (loose : isLoose rest = true) :
    cut c (cs ++ rest) = ⟨.token .number (c :: cs), c :: cs, rest⟩ := by
  obtain ⟨c', whole, fraction, split, digit, all, zero, point⟩ := h
  rw [List.cons_append] at split
  obtain ⟨rfl, rfl⟩ := List.cons.inj split
  have part : isWordPart c = true := by rw [isWordPart, digit, Bool.or_true]
  obtain ⟨blank, sign, pair, slash, quote⟩ := signs_of_wordPart part
  -- The digits before the point end where the fraction starts, or where the numeral does.
  have first : ∀ d ∈ (fraction ++ rest).head?, isDigit d = false := by
    rcases point with rfl | ⟨d, ds, rfl, -⟩
    · exact isDigit_of_loose loose
    · intro d mem
      obtain rfl := Option.some.inj mem
      decide
  obtain ⟨taken, left⟩ := span_append (fraction ++ rest) all first
  have leading : (decide (c = '0') && decide (1 < (c :: whole).length)) = false := by
    by_cases isZero : c = '0'
    · simp [zero isZero]
    · simp [isZero]
  simp only [List.append_assoc, cut, blank, sign, pair, slash, quote, digit, cutNumber, taken, left,
    cutFraction_append point loose, leading]
  rfl

/-- A numeral is the number that it denotes. -/
theorem spells_numeral (h : IsNumeral text) : Spells text [unplaced .number text] := by
  intro rest us loose more
  obtain ⟨c, cs, fraction, rfl, -⟩ := id h
  exact lexes_token (cut_of_numeral h loose) more

/-! ## Strings and signs -/

/-- A text without quotes, between quotes, is a string. -/
theorem spells_string {s : String} (closed : '"' ∉ s.toList) :
    Spells ('"' :: (s.toList ++ ['"'])) [.plain .string s] := by
  intro rest us loose more
  have all : ∀ d ∈ s.toList, (d != '"') = true := by
    intro d mem
    exact bne_iff_ne.2 fun same => closed (same ▸ mem)
  obtain ⟨taken, left⟩ := span_append ('"' :: rest) all (by simp)
  have shown : cut '"' (s.toList ++ '"' :: rest) =
      ⟨.token .string s.toList, '"' :: (s.toList ++ ['"']), rest⟩ := by
    change cutString _ = _
    simp only [cutString, taken, left]
  have token := lexes_token shown more
  rw [unplaced, String.ofList_toList] at token
  rwa [List.cons_append, List.append_assoc]

/-- A reserved word is its token. -/
theorem spells_keyword (type : TokenType) (h : (type.text, type) ∈ TokenType.keywords) :
    Spells type.text.toList [.sign type] := by
  cases type <;>
    first
    | exact absurd h (by decide)
    | exact spells_letters (by decide) (List.all_eq_true.1 (by decide))

/-- A sign that no equals sign goes on with is its token, whatever follows it. -/
theorem lexes_sign (type : TokenType) (h : (c, type) ∈ TokenType.punctuators)
    (more : Lexes rest us) : Lexes (c :: rest) (.sign type :: us) := by
  simp only [TokenType.punctuators, List.mem_cons, Prod.mk.injEq, List.not_mem_nil,
    or_false] at h
  rcases h with ⟨rfl, rfl⟩ | ⟨rfl, rfl⟩ | ⟨rfl, rfl⟩ | ⟨rfl, rfl⟩ | ⟨rfl, rfl⟩ | ⟨rfl, rfl⟩ |
    ⟨rfl, rfl⟩ | ⟨rfl, rfl⟩ | ⟨rfl, rfl⟩ | ⟨rfl, rfl⟩ <;>
    exact lexes_token rfl more

/-- A text that all tokens of a type have is such a token, if a blank follows it. -/
theorem lexes_fixed (type : TokenType) (h : type.text ≠ "") (more : Lexes rest us) :
    Lexes (type.text.toList ++ ' ' :: rest) (.sign type :: us) := by
  have blank : Lexes (' ' :: rest) us := lexes_blank (by decide) more
  -- A type has no text of its own, or it is a reserved word, or a sign.
  cases type <;>
    first
    | exact absurd rfl h
    | exact spells_keyword _ (by decide) rfl blank
    | exact lexes_token rfl blank

/-- An operator is its token, if a blank follows it. -/
theorem lexes_operator (h : t.Fixed) (more : Lexes rest us) :
    Lexes (t.chars ++ ' ' :: rest) (t.asOperator :: us) := by
  obtain ⟨text, some⟩ := h
  rw [Token.chars, Token.asOperator, text]
  exact lexes_fixed _ some more

/-- An exclamation mark or a minus sign is its token, if no equals sign follows it. -/
theorem lexes_unary (mem : t.type ∈ [TokenType.bang, .minus]) (h : t.Fixed)
    (other : rest.head? ≠ some '=') (more : Lexes rest us) :
    Lexes (t.chars ++ rest) (t.asOperator :: us) := by
  obtain ⟨text, -⟩ := h
  have either : t.type = .bang ∨ t.type = .minus := by simpa using mem
  rw [Token.chars, Token.asOperator, text]
  rcases either with shown | shown
  · rw [shown]
    have alone : cut '!' rest = ⟨.token .bang ['!'], ['!'], rest⟩ := by
      change cutOperator '!' .bang .bangEqual rest = _
      unfold cutOperator
      split
      · exact absurd rfl other
      · rfl
    exact lexes_token alone more
  · rw [shown]
    exact lexes_token rfl more

end Lox.Lexeme
