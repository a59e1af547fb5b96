import Lox.Tree.Basic

/-!
# Trees as program text

A tree is written so that reading the text gives the tree again. No parentheses are added: the shape
of a tree that was read already shows which operator binds tighter, and a grouping stays one. A
statement is a list of lines; what stands inside it is indented. A string may hold line breaks, so a
line of this list need not be one line of the text.
-/

namespace Lox

/-- The text behind a token, as characters. -/
def Token.chars (t : Token) : List Char := t.spelling.toList

/-- Texts with commas between them. -/
def commaSeparated : List (List Char) → List Char
  | [] => []
  | [text] => text
  | text :: texts => text ++ [',', ' '] ++ commaSeparated texts

namespace Literal

/-- A literal as program text. A text stands between quotes as it is. -/
def chars : Literal → List Char
  | nil => ['n', 'i', 'l']
  | bool true => ['t', 'r', 'u', 'e']
  | bool false => ['f', 'a', 'l', 's', 'e']
  | number x => x.numeral
  | text s => '"' :: (s.toList ++ ['"'])

end Literal

namespace Expr

mutual

/-- An expression as program text. -/
def chars : Expr → List Char
  | assign name value => name.chars ++ [' ', '=', ' '] ++ value.chars
  | binary left operator right | logical left operator right =>
    left.chars ++ [' '] ++ operator.chars ++ [' '] ++ right.chars
  | call callee _ arguments =>
    callee.chars ++ ['('] ++ commaSeparated (charsOfAll arguments) ++ [')']
  | get object name => object.chars ++ ['.'] ++ name.chars
  | grouping inner => ['('] ++ inner.chars ++ [')']
  | literal value => value.chars
  | set object name value =>
    object.chars ++ ['.'] ++ name.chars ++ [' ', '=', ' '] ++ value.chars
  | super _ method => ['s', 'u', 'p', 'e', 'r', '.'] ++ method.chars
  | this _ => ['t', 'h', 'i', 's']
  | unary operator right => operator.chars ++ right.chars
  | named name => name.chars

/-- Each of some expressions as program text. -/
def charsOfAll : List Expr → List (List Char)
  | [] => []
  | e :: es => e.chars :: charsOfAll es

end

/-- The text that an expression is by itself. A name whose token has no text is none, although
something stands for it inside the text of other expressions. -/
def text? : Expr → Option (List Char)
  | named name => name.lexeme.map String.toList
  | e => some e.chars

end Expr

/-- A line of a statement. -/
abbrev Line := List Char

namespace Layout

/-- Lines that are moved in by one indentation. -/
def indented (indent : List Char) (lines : List Line) : List Line := lines.map (indent ++ ·)

/-- A body between braces, the opening one on a line that a header starts. -/
def braced (indent header : List Char) (lines : List Line) : List Line :=
  (header ++ ['\x7b']) :: (indented indent lines ++ [['\x7d']])

/-- A header and the lines of the statement that it governs: a block starts on the header's line,
any other statement is indented below it. -/
def governed (indent header : List Char) (isBlock : Bool) (lines : List Line) : List Line :=
  match isBlock, lines with
  | true, first :: others => (header ++ [' '] ++ first) :: others
  | _, lines => header :: indented indent lines

/-- The lines of a branch and those of the `else` after it, which share a line if the branch is a
block. -/
def joined (isBlock : Bool) (branch : List Line) (other : List Line) : List Line :=
  match isBlock, branch.getLast?, other with
  | true, some last, first :: others => branch.dropLast ++ [last ++ [' '] ++ first] ++ others
  | _, _, other => branch ++ other

end Layout

namespace Stmt

/-- Whether a statement is a block. -/
def isBlock : Stmt → Bool
  | block _ => true
  | _ => false

end Stmt

/-- The line that a function starts with, up to its opening brace. -/
def Function.header (keyword : List Char) (name : Token) (params : List Token) : List Char :=
  keyword ++ name.chars ++ ['('] ++ commaSeparated (params.map Token.chars) ++ [')', ' ']

open Layout

mutual

/-- A statement as lines of program text. -/
def Stmt.lines (indent : List Char) : Stmt → List Line
  | .block statements => braced indent [] (Stmt.linesOfAll indent statements)
  | .function f => f.lines indent ['f', 'u', 'n', ' ']
  | .expression e => [e.chars ++ [';']]
  | .classDecl name superclass methods =>
    let parent := match superclass with
      | some parent => [' ', '<', ' '] ++ parent.chars
      | none => []
    braced indent (['c', 'l', 'a', 's', 's', ' '] ++ name.chars ++ parent ++ [' '])
      (Function.linesOfAll indent methods)
  | .ifThen condition thenBranch =>
    governed indent (['i', 'f', ' ', '('] ++ condition.chars ++ [')']) thenBranch.isBlock
      (thenBranch.lines indent)
  | .ifElse condition thenBranch elseBranch =>
    joined thenBranch.isBlock
      (governed indent (['i', 'f', ' ', '('] ++ condition.chars ++ [')']) thenBranch.isBlock
        (thenBranch.lines indent))
      (governed indent ['e', 'l', 's', 'e'] elseBranch.isBlock (elseBranch.lines indent))
  | .print e => [['p', 'r', 'i', 'n', 't', ' '] ++ e.chars ++ [';']]
  | .returns _ none => [['r', 'e', 't', 'u', 'r', 'n', ';']]
  | .returns _ (some value) => [['r', 'e', 't', 'u', 'r', 'n', ' '] ++ value.chars ++ [';']]
  | .varDecl name none => [['v', 'a', 'r', ' '] ++ name.chars ++ [';']]
  | .varDecl name (some value) =>
    [['v', 'a', 'r', ' '] ++ name.chars ++ [' ', '=', ' '] ++ value.chars ++ [';']]
  | .whileLoop condition body =>
    governed indent (['w', 'h', 'i', 'l', 'e', ' ', '('] ++ condition.chars ++ [')']) body.isBlock
      (body.lines indent)

/-- A function as lines of program text, after a keyword if it has one. A body that is not given is
written as an empty one. -/
def Function.lines (indent keyword : List Char) : Function → List Line
  | .declared name params =>
    braced indent (Function.header keyword name params) []
  | .defined name params body =>
    braced indent (Function.header keyword name params) (Stmt.linesOfAll indent body)

/-- The lines of some statements. -/
def Stmt.linesOfAll (indent : List Char) : List Stmt → List Line
  | [] => []
  | s :: rest => s.lines indent ++ Stmt.linesOfAll indent rest

/-- The lines of the methods of a class. -/
def Function.linesOfAll (indent : List Char) : List Function → List Line
  | [] => []
  | f :: rest => f.lines indent [] ++ Function.linesOfAll indent rest

end

/-- Lines of a text, each ended. -/
def Layout.ended (lines : List Line) : List Char := lines.flatMap (· ++ ['\n'])

/-- Lines of a text with line breaks between them. -/
def Layout.separated : List Line → List Char
  | [] => []
  | [line] => line
  | line :: lines => line ++ '\n' :: separated lines

/-- Four blanks, the indentation unless another is given. -/
def defaultIndent : String := "    "

/-- A program as text. -/
def render (indent : String) (statements : List Stmt) : String :=
  String.ofList (Layout.ended (Stmt.linesOfAll indent.toList statements))

end Lox
