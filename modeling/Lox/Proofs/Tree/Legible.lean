import Lox.Proofs.Tree.Spelling
import Lox.Token.Lexeme

/-!
# Legible trees

A tree is legible if its tokens have texts that can be read back one by one: its names are words
that are not reserved, its operators have the text of their type, its strings hold no quote, and its
numbers are not negative. Nothing is asked of its shape.
-/

namespace Lox

/-- A double is one that the text of a number denotes: a number or infinity, without a sign. -/
def Binary64.Plain (x : Binary64) : Prop := x.negative = false ∧ x.isNaN = false

/-- A text is a word that is not reserved. -/
def Lexeme.IsName (word : List Char) : Prop :=
  ∃ c cs, word = c :: cs ∧ isLetter c = true ∧ (∀ d ∈ cs, isWordPart d = true) ∧
    TokenType.ofWord (String.ofList word) = .identifier

namespace Token

/-- The text of a token is a word that is not reserved. -/
def NamesWord (t : Token) : Prop := Lexeme.IsName t.chars

/-- The text of a token is the one that all tokens of its type have. -/
def Fixed (t : Token) : Prop := t.spelling = t.type.text ∧ t.type.text ≠ ""

end Token

/-- A literal has a text that can be read back. -/
def Literal.Legible : Literal → Prop
  | nil | bool _ => True
  | number x => x.Plain
  | text s => '"' ∉ s.toList

/-- The tokens of an expression have texts that can be read back. A unary operator stands right in
front of its operand, so it has to be one that does not go on there. -/
inductive Expr.Legible : Expr → Prop
  | assign {name : Token} {value : Expr} :
    name.NamesWord → Legible value → Legible (.assign name value)
  | binary {left right : Expr} {operator : Token} :
    operator.Fixed → Legible left → Legible right → Legible (.binary left operator right)
  | logical {left right : Expr} {operator : Token} :
    operator.Fixed → Legible left → Legible right → Legible (.logical left operator right)
  | call {callee : Expr} {paren : Token} {arguments : List Expr} :
    Legible callee → (∀ e ∈ arguments, Legible e) → Legible (.call callee paren arguments)
  | get {object : Expr} {name : Token} :
    name.NamesWord → Legible object → Legible (.get object name)
  | grouping {inner : Expr} : Legible inner → Legible (.grouping inner)
  | literal {value : Literal} : value.Legible → Legible (.literal value)
  | set {object value : Expr} {name : Token} :
    name.NamesWord → Legible object → Legible value → Legible (.set object name value)
  | super {keyword method : Token} : method.NamesWord → Legible (.super keyword method)
  | this (keyword : Token) : Legible (.this keyword)
  | unary {operator : Token} {right : Expr} :
    operator.type ∈ [TokenType.bang, .minus] → operator.Fixed → Legible right →
    Legible (.unary operator right)
  | named {name : Token} : name.NamesWord → Legible (.named name)

/-- The tokens of a statement have texts that can be read back. A method is legible as a function
is. -/
inductive Stmt.Legible : Stmt → Prop
  | block {statements : List Stmt} : (∀ s ∈ statements, Legible s) → Legible (.block statements)
  | declared {name : Token} {params : List Token} :
    name.NamesWord → (∀ t ∈ params, t.NamesWord) → Legible (.function (.declared name params))
  | function {name : Token} {params : List Token} {body : List Stmt} :
    name.NamesWord → (∀ t ∈ params, t.NamesWord) → (∀ s ∈ body, Legible s) →
    Legible (.function (.defined name params body))
  | expression {e : Expr} : e.Legible → Legible (.expression e)
  | classDecl {name : Token} {superclass : Option Token} {methods : List Function} :
    name.NamesWord → (∀ t ∈ superclass, t.NamesWord) → (∀ f ∈ methods, Legible (.function f)) →
    Legible (.classDecl name superclass methods)
  | ifThen {condition : Expr} {thenBranch : Stmt} :
    condition.Legible → Legible thenBranch → Legible (.ifThen condition thenBranch)
  | ifElse {condition : Expr} {thenBranch elseBranch : Stmt} :
    condition.Legible → Legible thenBranch → Legible elseBranch →
    Legible (.ifElse condition thenBranch elseBranch)
  | print {e : Expr} : e.Legible → Legible (.print e)
  | returns {keyword : Token} {value : Option Expr} :
    (∀ e ∈ value, e.Legible) → Legible (.returns keyword value)
  | varDecl {name : Token} {initializer : Option Expr} :
    name.NamesWord → (∀ e ∈ initializer, e.Legible) → Legible (.varDecl name initializer)
  | whileLoop {condition : Expr} {body : Stmt} :
    condition.Legible → Legible body → Legible (.whileLoop condition body)

end Lox
