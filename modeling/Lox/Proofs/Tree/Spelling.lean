import Lox.Tree.Layout

/-!
# The tokens that a tree is spelled with

Every tree has a row of tokens that spells it: those of each construct in their order, without
commas that could be left out. The tokens have no lines. Names and operators are those of the tree,
literals carry their values, and all other tokens are signs and keywords, whose text follows from
their type.
-/

namespace Lox

/-- The text of the tokens of a type, if they all have the same text. -/
def TokenType.text : TokenType → String
  | leftParen => "(" | rightParen => ")" | leftBrace => "\x7b" | rightBrace => "\x7d"
  | comma => "," | dot => "." | minus => "-" | plus => "+" | semicolon => ";" | slash => "/"
  | star => "*" | bang => "!" | bangEqual => "!=" | equal => "=" | equalEqual => "=="
  | greater => ">" | greaterEqual => ">=" | less => "<" | lessEqual => "<="
  | andKw => "and" | classKw => "class" | elseKw => "else" | falseKw => "false" | forKw => "for"
  | funKw => "fun" | ifKw => "if" | nilKw => "nil" | orKw => "or" | printKw => "print"
  | returnKw => "return" | superKw => "super" | thisKw => "this" | trueKw => "true"
  | varKw => "var" | whileKw => "while"
  | identifier | string | number | eof => ""

namespace Token

/-- A token with a type and a text, but without a line and a value. -/
def plain (type : TokenType) (text : String) : Token := ⟨type, some text, none, none⟩

/-- The token of a type whose tokens all have the same text. -/
def sign (type : TokenType) : Token := plain type type.text

/-- The token that a name is read back as. -/
def asName (t : Token) : Token := plain .identifier t.spelling

/-- The token that an operator is read back as. -/
def asOperator (t : Token) : Token := plain t.type t.spelling

/-- A sign has its type. -/
@[simp] theorem sign_type (type : TokenType) : (sign type).type = type := rfl

/-- A name is read back as a name. -/
@[simp] theorem asName_type (t : Token) : t.asName.type = .identifier := rfl

/-- An operator is read back with its type. -/
@[simp] theorem asOperator_type (t : Token) : t.asOperator.type = t.type := rfl

/-- Rows of tokens with commas between them. -/
def listed : List (List Token) → List Token
  | [] => []
  | [ts] => ts
  | ts :: rest => ts ++ sign .comma :: listed rest

/-- The tokens of a superclass that may be missing. -/
def parentSpelling : Option Token → List Token
  | some parent => [sign .less, parent.asName]
  | none => []

end Token

open Token

/-- The token of a literal. -/
def Literal.token : Literal → Token
  | nil => sign .nilKw
  | bool b => sign (if b then .trueKw else .falseKw)
  | number x => ⟨.number, some (String.ofList x.numeral), none, some x⟩
  | text s => plain .string s

namespace Expr

mutual

/-- The tokens that spell an expression. -/
def spelling : Expr → List Token
  | assign name value => name.asName :: sign .equal :: value.spelling
  | binary left operator right | logical left operator right =>
    left.spelling ++ operator.asOperator :: right.spelling
  | call callee _ arguments =>
    callee.spelling ++ sign .leftParen :: (listed (spellings arguments) ++ [sign .rightParen])
  | get object name => object.spelling ++ [sign .dot, name.asName]
  | grouping inner => sign .leftParen :: (inner.spelling ++ [sign .rightParen])
  | literal value => [value.token]
  | set object name value =>
    object.spelling ++ sign .dot :: name.asName :: sign .equal :: value.spelling
  | super _ method => [sign .superKw, sign .dot, method.asName]
  | this _ => [sign .thisKw]
  | unary operator right => operator.asOperator :: right.spelling
  | named name => [name.asName]

/-- The tokens that spell each of some expressions. -/
def spellings : List Expr → List (List Token)
  | [] => []
  | e :: es => e.spelling :: spellings es

end

/-- Each of some expressions is spelled. -/
theorem spellings_eq_map (es : List Expr) : spellings es = es.map spelling := by
  induction es with
  | nil => rfl
  | cons e es ih => rw [spellings, ih, List.map_cons]

/-- The tokens of an expression that may be missing, with tokens in front of it. -/
def spellingAfter (front : List Token) : Option Expr → List Token
  | some e => front ++ e.spelling
  | none => []

end Expr

mutual

/-- The tokens that spell a statement. -/
def Stmt.spelling : Stmt → List Token
  | .block statements =>
    sign .leftBrace :: (Stmt.spellingAll statements ++ [sign .rightBrace])
  | .function f => sign .funKw :: f.spelling
  | .expression e => e.spelling ++ [sign .semicolon]
  | .classDecl name superclass methods =>
    sign .classKw :: name.asName ::
      (parentSpelling superclass ++
        sign .leftBrace :: (Function.spellingAll methods ++ [sign .rightBrace]))
  | .ifThen condition thenBranch =>
    sign .ifKw :: sign .leftParen :: (condition.spelling ++ sign .rightParen :: thenBranch.spelling)
  | .ifElse condition thenBranch elseBranch =>
    sign .ifKw :: sign .leftParen :: (condition.spelling ++ sign .rightParen ::
      (thenBranch.spelling ++ sign .elseKw :: elseBranch.spelling))
  | .print e => sign .printKw :: (e.spelling ++ [sign .semicolon])
  | .returns _ value => sign .returnKw :: (Expr.spellingAfter [] value ++ [sign .semicolon])
  | .varDecl name initializer =>
    sign .varKw :: name.asName ::
      (Expr.spellingAfter [sign .equal] initializer ++ [sign .semicolon])
  | .whileLoop condition body =>
    sign .whileKw :: sign .leftParen :: (condition.spelling ++ sign .rightParen :: body.spelling)

/-- The tokens that spell a function from its name on. A body that is not given is spelled as an
empty one. -/
def Function.spelling : Function → List Token
  | .declared name params =>
    name.asName :: sign .leftParen :: (listed (params.map ([·.asName])) ++
      sign .rightParen :: sign .leftBrace :: [sign .rightBrace])
  | .defined name params body =>
    name.asName :: sign .leftParen :: (listed (params.map ([·.asName])) ++
      sign .rightParen :: sign .leftBrace :: (Stmt.spellingAll body ++ [sign .rightBrace]))

/-- The tokens that spell some statements. -/
def Stmt.spellingAll : List Stmt → List Token
  | [] => []
  | s :: rest => s.spelling ++ Stmt.spellingAll rest

/-- The tokens that spell the methods of a class. -/
def Function.spellingAll : List Function → List Token
  | [] => []
  | f :: rest => f.spelling ++ Function.spellingAll rest

end

/-- Some statements are spelled one after the other. -/
theorem Stmt.spellingAll_eq (ss : List Stmt) :
    Stmt.spellingAll ss = (ss.map Stmt.spelling).flatten := by
  induction ss with
  | nil => rfl
  | cons s ss ih => rw [Stmt.spellingAll, ih, List.map_cons, List.flatten_cons]

/-- Some functions are spelled one after the other. -/
theorem Function.spellingAll_eq (fs : List Function) :
    Function.spellingAll fs = (fs.map Function.spelling).flatten := by
  induction fs with
  | nil => rfl
  | cons f fs ih => rw [Function.spellingAll, ih, List.map_cons, List.flatten_cons]

end Lox
