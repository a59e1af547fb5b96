import Lox.Diagnostic
import Lox.Token.Basic

/-!
# Errors of form

The ways in which tokens fail to be a declaration. An error is a cause and the token to blame;
`SyntaxError.report` says it in words.
-/

namespace Lox

/-- An error of form in words. -/
structure SyntaxReport where
  /-- The message and its place. -/
  diagnostic : Diagnostic
  /-- The token to blame. -/
  token : Option Token
  deriving DecidableEq

/-- What should have come. -/
inductive Expected
  | type (t : TokenType)
  | phrase (text : String)
  deriving DecidableEq

namespace Expected

/-- How messages call what should have come. -/
def name : Expected → String
  | type t => t.name
  | phrase text => text

/-- What to add where something is missing. -/
def suggestions : Expected → List String
  | type .semicolon => ["Add a semicolon ';' to end the statement"]
  | type .rightParen => ["Add a closing parenthesis ')'"]
  | type .rightBrace => ["Add a closing brace '\x7d'"]
  | type .leftBrace => ["Add an opening brace '\x7b' to start a block"]
  | type .leftParen => ["Add an opening parenthesis '('"]
  | _ => []

end Expected

/-- Why tokens are no declaration. -/
inductive SyntaxCause
  /-- A token of another type than the one that had to come. -/
  | unexpectedToken (expected : Expected) (message : String)
  /-- The end of the input, where a token had to come. -/
  | unexpectedEnd (expected : Expected) (message : String)
  /-- A token that starts no expression. -/
  | noExpression
  /-- An equals sign after something that nothing can be assigned to. -/
  | invalidTarget
  /-- More levels of nesting than allowed. -/
  | tooDeep (limit : Int)
  deriving DecidableEq

/-- An error of form: its cause and the token to blame. -/
structure SyntaxError where
  /-- What is wrong. -/
  cause : SyntaxCause
  /-- Where it was found. -/
  found : Token
  deriving DecidableEq

namespace SyntaxCause

/-- The codes of the causes and what they stand for. -/
def codes : List (String × String) :=
  [("P001", "Unexpected token"), ("P005", "Expected expression"),
   ("P006", "Invalid assignment target"), ("P007", "Nesting too deep"),
   ("P010", "Unexpected end of input")]

/-- The code of a cause. -/
def code : SyntaxCause → String
  | unexpectedToken _ _ => "P001"
  | noExpression => "P005"
  | invalidTarget => "P006"
  | tooDeep _ => "P007"
  | unexpectedEnd _ _ => "P010"

/-- What a reader should know. -/
def help : SyntaxCause → String
  | unexpectedToken expected _ => "The parser expected " ++ expected.name ++ " here."
  | unexpectedEnd expected _ => "The input ended while the parser expected " ++ expected.name ++ "."
  | noExpression =>
    "An expression must start with a literal, a name, '(', '!', '-', 'this' or 'super'."
  | invalidTarget => "Only variables and object properties can be assigned to."
  | tooDeep _ => "Split the deeply nested code into smaller functions or variables."

/-- What a reader could do. -/
def suggestions : SyntaxCause → Option (List String)
  | unexpectedToken expected _ | unexpectedEnd expected _ => some expected.suggestions
  | noExpression | invalidTarget => none
  | tooDeep _ => some ["Move inner parts into local variables"]

end SyntaxCause

namespace SyntaxError

/-- Where a message places a token. -/
def placing (found : Token) : String :=
  if found.isEof then "at end" else "at '" ++ found.spelling ++ "'"

/-- What is said. -/
def message (e : SyntaxError) : String :=
  let place := placing e.found
  match e.cause with
  | .unexpectedToken _ message =>
    message ++ " (found " ++ e.found.type.name ++ " " ++ place ++ ")"
  | .unexpectedEnd _ message => message ++ " (found " ++ place ++ ")"
  | .noExpression => "Expect expression (found " ++ place ++ ")"
  | .invalidTarget => "Invalid assignment target " ++ place
  | .tooDeep limit => "Too much nesting (more than " ++ toString limit ++ " levels) " ++ place

/-- The place of an error in a named file: the line of the token to blame. -/
def location (e : SyntaxError) (file : String) : Location := ⟨file, e.found.line⟩

/-- An error in words, for a named file. -/
def report (e : SyntaxError) (file : String) : SyntaxReport where
  diagnostic :=
    { message := e.message, location := e.location file, severity := "error",
      code := some e.cause.code, help := some e.cause.help, suggestions := e.cause.suggestions }
  token := some e.found

end SyntaxError

end Lox
