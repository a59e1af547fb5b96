/-!
# Kinds of node

The closed list of the kinds of node in a tree, each with its tag, the name it has in structural
dumps and the names of its fields.
-/

namespace Lox

/-- The kinds of node: the expressions, then the statements. -/
inductive Kind
  | assign | binary | call | get | grouping | literal | logical | set | super | this | unary | named
  | block | function | expression | classDecl | branch | print | returns | varDecl | whileLoop
  deriving DecidableEq

namespace Kind

/-- The kinds of expressions. -/
def expressions : List Kind :=
  [assign, binary, call, get, grouping, literal, logical, set, super, this, unary, named]

/-- The kinds of statements. -/
def statements : List Kind :=
  [block, function, expression, classDecl, branch, print, returns, varDecl, whileLoop]

/-- Every kind. -/
def all : List Kind := expressions ++ statements

/-- No kind is missing from the list of all. -/
theorem mem_all (k : Kind) : k ∈ all := by cases k <;> decide

/-- The tag of a kind. -/
def tag : Kind → String
  | assign => "assign" | binary => "binary" | call => "call" | get => "get"
  | grouping => "grouping" | literal => "literal" | logical => "logical" | set => "set"
  | super => "super" | this => "this" | unary => "unary" | named => "variable"
  | block => "block" | function => "function" | expression => "expression" | classDecl => "class"
  | branch => "if" | print => "print" | returns => "return" | varDecl => "var"
  | whileLoop => "while"

/-- The kind with a given tag. -/
def ofTag? (tag : String) : Option Kind := all.find? (·.tag == tag)

/-- The name of a kind in structural dumps. -/
def title : Kind → String
  | assign => "Assignment" | binary => "BinaryOp" | call => "FunctionCall" | get => "FieldAccess"
  | grouping => "Grouping" | literal => "Literal" | logical => "LogicalOp"
  | set => "FieldAssignment" | super => "SuperAccess" | this => "ThisExpr" | unary => "UnaryOp"
  | named => "Variable" | block => "BlockStatement" | function => "FunctionDef"
  | expression => "ExpressionStatement" | classDecl => "ClassDef" | branch => "IfStatement"
  | print => "PrintStatement" | returns => "ReturnStatement" | varDecl => "VariableDecl"
  | whileLoop => "WhileLoop"

/-- The names of a kind's fields, in order. -/
def fields : Kind → List String
  | assign => ["name", "value"]
  | binary | logical => ["left", "operator", "right"]
  | call => ["callee", "paren", "arguments"]
  | get => ["object", "name"]
  | grouping | expression | print => ["expression"]
  | literal => ["value"]
  | set => ["object", "name", "value"]
  | super => ["keyword", "method"]
  | this => ["keyword"]
  | unary => ["operator", "right"]
  | named => ["name"]
  | block => ["statements"]
  | function => ["name", "params", "body"]
  | classDecl => ["name", "superclass", "methods"]
  | branch => ["condition", "then_branch", "else_branch"]
  | returns => ["keyword", "value"]
  | varDecl => ["name", "initializer"]
  | whileLoop => ["condition", "body"]

/-- Whether a kind is one of expressions. -/
def isExpression (k : Kind) : Bool := expressions.contains k

end Kind

end Lox
