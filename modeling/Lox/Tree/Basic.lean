import Lox.Token.Basic

/-!
# Syntax trees

Expressions and statements of Lox. Trees keep the tokens that name things, and those that later
stages blame for errors. There is no tree for a `for` loop: `Stmt.forLoop` says which `while` loop
it stands for.
-/

namespace Lox

/-- The value of a literal. -/
inductive Literal
  | nil
  | bool (b : Bool)
  | number (x : Binary64)
  | text (s : String)
  deriving DecidableEq

namespace Literal

/-- The literal of a number token; without a value it is `nil`. -/
def ofNumber : Option Binary64 → Literal
  | some x => number x
  | none => nil

/-- The literal of a string token; without a text it is `nil`. -/
def ofText : Option String → Literal
  | some s => text s
  | none => nil

end Literal

/-- Expressions. -/
inductive Expr
  /-- `name = value` -/
  | assign (name : Token) (value : Expr)
  /-- Arithmetic, comparison or equality. -/
  | binary (left : Expr) (operator : Token) (right : Expr)
  /-- A call, with the closing parenthesis. -/
  | call (callee : Expr) (paren : Token) (arguments : List Expr)
  /-- `object.name` -/
  | get (object : Expr) (name : Token)
  /-- An expression in parentheses. -/
  | grouping (inner : Expr)
  | literal (value : Literal)
  /-- `and` and `or`, which may not look at their right side. -/
  | logical (left : Expr) (operator : Token) (right : Expr)
  /-- `object.name = value` -/
  | set (object : Expr) (name : Token) (value : Expr)
  /-- `super.method` -/
  | super (keyword method : Token)
  | this (keyword : Token)
  /-- `!` or `-` in front of an expression. -/
  | unary (operator : Token) (right : Expr)
  /-- A name that stands for its value. -/
  | named (name : Token)

mutual

/-- Statements and declarations. -/
inductive Stmt
  | block (statements : List Stmt)
  | function (definition : Function)
  | expression (e : Expr)
  /-- A class, perhaps with the name of its superclass. -/
  | classDecl (name : Token) (superclass : Option Token) (methods : List Function)
  /-- An `if` without `else`. -/
  | ifThen (condition : Expr) (thenBranch : Stmt)
  | ifElse (condition : Expr) (thenBranch elseBranch : Stmt)
  | print (e : Expr)
  | returns (keyword : Token) (value : Option Expr)
  | varDecl (name : Token) (initializer : Option Expr)
  | whileLoop (condition : Expr) (body : Stmt)

/-- Functions and methods. -/
inductive Function
  /-- A function whose body is not given. -/
  | declared (name : Token) (params : List Token)
  | defined (name : Token) (params : List Token) (body : List Stmt)

end

namespace Function

/-- The name of a function. -/
def name : Function → Token
  | declared name _ | defined name _ _ => name

/-- The names of its parameters. -/
def params : Function → List Token
  | declared _ params | defined _ params _ => params

end Function

namespace Stmt

/-- The body of a loop that ends each turn with an increment, if there is one. -/
def withIncrement (body : Stmt) : Option Expr → Stmt
  | some e => block [body, expression e]
  | none => body

/-- A statement that an initializer precedes, if there is one. -/
def withInitializer (loop : Stmt) : Option Stmt → Stmt
  | some first => block [first, loop]
  | none => loop

/-- The loop `for (initializer; condition; increment) body`. A condition that is left out holds. -/
def forLoop (initializer : Option Stmt) (condition increment : Option Expr) (body : Stmt) : Stmt :=
  let loop := whileLoop (condition.getD (.literal (.bool true))) (body.withIncrement increment)
  loop.withInitializer initializer

end Stmt

end Lox
