import Lox.Diagnostic
import Lox.Token.Basic

/-!
# Lexical faults

The four ways in which text fails to be a token. A fault is a cause and a line;
`LexicalCause.report` says it in words. There is no going on after a fault: where the next token
would start is not known.
-/

namespace Lox

/-- A lexical fault in words. -/
structure LexicalReport where
  /-- The message and its place. -/
  diagnostic : Diagnostic
  /-- The offending character, or a piece of the offending text. -/
  value : String
  deriving DecidableEq

/-- Why a text starts with no token. -/
inductive LexicalCause
  /-- A character that no token starts with. -/
  | unexpectedCharacter (char : Char)
  /-- A quote that is never closed, and the text after it. -/
  | unterminatedString (content : String)
  /-- A numeral that is not allowed, and why. -/
  | invalidNumber (lexeme reason : String)
  /-- A block comment that is never closed. -/
  | unterminatedComment
  deriving DecidableEq

namespace LexicalCause

/-- The codes of the causes and what they stand for. -/
def codes : List (String × String) :=
  [("L001", "Unexpected character"), ("L002", "Unterminated string literal"),
   ("L003", "Invalid numeric literal"), ("L004", "Unterminated block comment")]

/-- The code of a cause. -/
def code : LexicalCause → String
  | unexpectedCharacter _ => "L001"
  | unterminatedString _ => "L002"
  | invalidNumber _ _ => "L003"
  | unterminatedComment => "L004"

/-- Why numerals such as `007` are not allowed. -/
def leadingZeroReason : String := "Multi-digit numbers cannot start with a leading zero."

/-- A code point as `U+` and at least four upper-case hexadecimal digits. -/
def codePoint (c : Char) : String :=
  "U+" ++ String.ofList ((Text.hex 4 c.toNat).map Char.toUpper)

/-- What to know about a character that starts no token. -/
def characterHelp (c : Char) : String :=
  if Text.isPrintable c then
    "The character '" ++ String.singleton c ++ "' is not valid in Lox source code."
  else "Non-printable character (Unicode: " ++ codePoint c ++ ") is not allowed."

/-- A numeral without the zeros at its start; one stays if no other digit precedes the point. -/
def dropLeadingZeros (lexeme : List Char) : List Char :=
  let whole := (Decimal.wholePart lexeme).dropWhile (· == '0')
  (if whole.isEmpty then ['0'] else whole) ++ lexeme.dropWhile (· != '.')

/-- The offending character or text. The text after an open quote is cut after 20 characters. -/
def value : LexicalCause → String
  | unexpectedCharacter c => String.singleton c
  | unterminatedString content => String.ofList (content.toList.take 20)
  | invalidNumber lexeme _ => lexeme
  | unterminatedComment => "/*"

/-- What is said. -/
def message : LexicalCause → String
  | unexpectedCharacter c => "Unexpected character: '" ++ String.singleton c ++ "'"
  | unterminatedString _ => "Unterminated string"
  | invalidNumber lexeme _ => "Invalid number: '" ++ lexeme ++ "'"
  | unterminatedComment => "Unterminated block comment"

/-- What a reader should know. -/
def help : LexicalCause → String
  | unexpectedCharacter c => characterHelp c
  | unterminatedString _ => "String literals must be closed with a matching '\"' quote."
  | invalidNumber _ reason => reason
  | unterminatedComment => "Block comments opened with '/*' must be closed with '*/'."

/-- What a reader could do; for a stray character nothing. -/
def suggestions : LexicalCause → Option (List String)
  | unexpectedCharacter _ => none
  | unterminatedString _ => some ["Add a closing '\"' quote"]
  | invalidNumber lexeme _ =>
    some ["Write '" ++ String.ofList (dropLeadingZeros lexeme.toList) ++ "' instead"]
  | unterminatedComment => some ["Add a closing '*/'"]

/-- A cause in words, at a place. -/
def report (cause : LexicalCause) (location : Location) : LexicalReport where
  diagnostic :=
    { message := cause.message, location, severity := "error", code := some cause.code,
      help := some cause.help, suggestions := cause.suggestions }
  value := cause.value

end LexicalCause

/-- A lexical fault: its cause and the line on which the offending text starts. -/
structure LexicalError where
  /-- Why there is no token. -/
  cause : LexicalCause
  /-- The line of the first offending character. -/
  line : Nat
  deriving DecidableEq

/-- A lexical fault in words, for a named file. -/
def LexicalError.report (e : LexicalError) (file : String) : LexicalReport :=
  e.cause.report ⟨file, some e.line⟩

end Lox
