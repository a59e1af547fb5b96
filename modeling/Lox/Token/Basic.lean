import Lox.Decimal.Layout
import Lox.Text.Quoted

/-!
# Tokens

The kinds of token of the Lox language and the token itself: its type, the text behind it, its line
and, for a number, its value. The tables say which words and signs spell which type.
-/

namespace Lox

/-- The kinds of token. The names of reserved words end in `Kw`. -/
inductive TokenType
  | leftParen | rightParen | leftBrace | rightBrace
  | comma | dot | minus | plus | semicolon | slash | star
  | bang | bangEqual | equal | equalEqual | greater | greaterEqual | less | lessEqual
  | identifier | string | number
  | andKw | classKw | elseKw | falseKw | forKw | funKw | ifKw | nilKw
  | orKw | printKw | returnKw | superKw | thisKw | trueKw | varKw | whileKw
  | eof
  deriving DecidableEq

namespace TokenType

/-- Every type, in the order of their numbers. -/
def all : List TokenType :=
  [leftParen, rightParen, leftBrace, rightBrace, comma, dot, minus, plus, semicolon, slash, star,
   bang, bangEqual, equal, equalEqual, greater, greaterEqual, less, lessEqual,
   identifier, string, number,
   andKw, classKw, elseKw, falseKw, forKw, funKw, ifKw, nilKw,
   orKw, printKw, returnKw, superKw, thisKw, trueKw, varKw, whileKw, eof]

/-- No type is missing from the list of all. -/
theorem mem_all (t : TokenType) : t ∈ all := by cases t <;> decide

/-- The name of a type in messages. -/
def name : TokenType → String
  | leftParen => "LEFT_PAREN" | rightParen => "RIGHT_PAREN"
  | leftBrace => "LEFT_BRACE" | rightBrace => "RIGHT_BRACE"
  | comma => "COMMA" | dot => "DOT" | minus => "MINUS" | plus => "PLUS"
  | semicolon => "SEMICOLON" | slash => "SLASH" | star => "STAR"
  | bang => "BANG" | bangEqual => "BANG_EQUAL"
  | equal => "EQUAL" | equalEqual => "EQUAL_EQUAL"
  | greater => "GREATER" | greaterEqual => "GREATER_EQUAL"
  | less => "LESS" | lessEqual => "LESS_EQUAL"
  | identifier => "IDENTIFIER" | string => "STRING" | number => "NUMBER"
  | andKw => "AND" | classKw => "CLASS" | elseKw => "ELSE" | falseKw => "FALSE"
  | forKw => "FOR" | funKw => "FUN" | ifKw => "IF" | nilKw => "NIL"
  | orKw => "OR" | printKw => "PRINT" | returnKw => "RETURN" | superKw => "SUPER"
  | thisKw => "THIS" | trueKw => "TRUE" | varKw => "VAR" | whileKw => "WHILE"
  | eof => "EOF"

/-- The number of a type, from 1. -/
def index (t : TokenType) : Nat := all.idxOf t + 1

/-- The type with a given name. -/
def ofName? (name : String) : Option TokenType := all.find? (·.name == name)

/-- The reserved words. -/
def keywords : List (String × TokenType) :=
  [("and", andKw), ("class", classKw), ("else", elseKw), ("false", falseKw), ("for", forKw),
   ("fun", funKw), ("if", ifKw), ("nil", nilKw), ("or", orKw), ("print", printKw),
   ("return", returnKw), ("super", superKw), ("this", thisKw), ("true", trueKw), ("var", varKw),
   ("while", whileKw)]

/-- The signs that are a token whatever follows them. -/
def punctuators : List (Char × TokenType) :=
  [('(', leftParen), (')', rightParen), ('\x7b', leftBrace), ('\x7d', rightBrace), (',', comma),
   ('.', dot), ('-', minus), ('+', plus), (';', semicolon), ('*', star)]

/-- The operators that an equals sign may follow: their type alone, and with the equals sign. -/
def equalsPairs : List (Char × TokenType × TokenType) :=
  [('!', bang, bangEqual), ('=', equal, equalEqual), ('<', less, lessEqual),
   ('>', greater, greaterEqual)]

/-- The types of tokens that denote a value by themselves. -/
def literals : List TokenType := [string, number, trueKw, falseKw, nilKw]

/-- The type of a word: its own if it is reserved. -/
def ofWord (word : String) : TokenType := (keywords.lookup word).getD identifier

/-- What a table gives stands in it. -/
theorem mem_of_lookup {α β : Type} [BEq α] [LawfulBEq α] {table : List (α × β)} {a : α} {b : β}
    (h : table.lookup a = some b) : (a, b) ∈ table := by
  obtain ⟨_, _, rfl, _⟩ := List.lookup_eq_some_iff.1 h
  simp

/-- No word is the mark of the end. -/
theorem ofWord_ne_eof (word : String) : ofWord word ≠ eof := by
  unfold ofWord
  cases h : keywords.lookup word with
  | none => decide
  | some t =>
    have : ∀ entry ∈ keywords, entry.2 ≠ eof := by decide
    exact this _ (mem_of_lookup h)

end TokenType

/-- A token of program text. -/
structure Token where
  /-- Its kind. -/
  type : TokenType
  /-- The text behind it, without the quotes of a string; the mark at the end has none. -/
  lexeme : Option String
  /-- The line of its first character; the mark at the end has none. -/
  line : Option Int
  /-- The value of a number. -/
  literal : Option Binary64
  deriving DecidableEq

namespace Token

/-- The mark at the end of the input. -/
def eof : Token := ⟨.eof, none, none, none⟩

/-- Whether a token marks the end of the input. -/
def isEof (t : Token) : Bool := t.type == .eof

/-- The mark at the end is one. -/
@[simp] theorem isEof_eof : eof.isEof = true := rfl

/-- Whether a token denotes a value by itself. -/
def isLiteral (t : Token) : Bool := TokenType.literals.contains t.type

/-- Whether a token is a reserved word. -/
def isKeyword (t : Token) : Bool := TokenType.keywords.any (·.2 == t.type)

/-- The text behind a token where one has to be shown. -/
def spelling (t : Token) : String := t.lexeme.getD "None"

/-- A token as type, quoted text and value. -/
def describe (t : Token) : String :=
  if t.isEof then "EOF"
  else
    let value := match t.literal with
      | some x => " -> " ++ String.ofList x.display
      | none => ""
    t.type.name ++ "(" ++ Text.quotedOption t.lexeme ++ value ++ ")"

end Token

end Lox
