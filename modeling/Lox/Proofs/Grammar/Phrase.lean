import Lox.Tree.Basic

/-!
# The grammar

A phrase of the grammar is a relation between rows of tokens and the trees that they stand for. The
rules below are those of the language's grammar, in its order from primary expressions up to
programs; the row of tokens in a rule is the right side of the production, and a terminal is a token
of which only the type matters. The trees keep the tokens of their row as they are.

A phrase is given the phrases that it may nest. `Expression n`, `Unary n`, `Statement n` and
`Declaration n` tie the knot: they are the phrases that have a derivation in which no path enters
more than `n` levels, where an expression, the operand of a unary operator, a statement and the body
of a function are one level each. The right side of an assignment is an expression, and the first
clause of a `for` loop is no statement.

The grammar leaves open to which `if` an `else` belongs. Here it is the nearest one: statements
carry a mark that tells whether an `else` after them would belong to an `if` inside them, and the
first branch of an `if` with `else` has to be without it.
-/

namespace Lox

/-- Rows of tokens, with the trees that they stand for. -/
abbrev Lang (α : Type) := List Token → α → Prop

namespace Grammar

variable {α : Type}

/-- No row of tokens. -/
def Nothing : Lang α := fun _ _ => False

/-- A single token of a type. -/
inductive Terminal (type : TokenType) : Lang Token
  | mk {t : Token} : t.type = type → Terminal type [t] t

/-- `item*` -/
inductive Many (item : Lang α) : Lang (List α)
  | nil : Many item [] []
  | cons {ts us : List Token} {a : α} {as : List α} :
    item ts a → Many item us as → Many item (ts ++ us) (a :: as)

/-- `part?` -/
inductive Maybe (part : Lang α) : Lang (Option α)
  | none : Maybe part [] none
  | some {ts : List Token} {a : α} : part ts a → Maybe part ts (some a)

/-- `( "," item )* ","?` -/
inductive Further (item : Lang α) : Lang (List α)
  | nil : Further item [] []
  | comma {comma : Token} : comma.type = .comma → Further item [comma] []
  | cons {comma : Token} {ts us : List Token} {a : α} {as : List α} :
    comma.type = .comma → item ts a → Further item us as →
    Further item (comma :: (ts ++ us)) (a :: as)

/-- `( item ( "," item )* ","? )?` -/
inductive Listed (item : Lang α) : Lang (List α)
  | nil : Listed item [] []
  | cons {ts us : List Token} {a : α} {as : List α} :
    item ts a → Further item us as → Listed item (ts ++ us) (a :: as)

/-! ## Expressions -/

/-- `primary → "true" | "false" | "nil" | "this" | NUMBER | STRING | IDENTIFIER
| "(" expression ")" | "super" "." IDENTIFIER` -/
inductive Primary (expression : Lang Expr) : Lang Expr
  | false {t : Token} : t.type = .falseKw → Primary expression [t] (.literal (.bool false))
  | true {t : Token} : t.type = .trueKw → Primary expression [t] (.literal (.bool true))
  | nil {t : Token} : t.type = .nilKw → Primary expression [t] (.literal .nil)
  | number {t : Token} :
    t.type = .number → Primary expression [t] (.literal (.ofNumber t.literal))
  | string {t : Token} : t.type = .string → Primary expression [t] (.literal (.ofText t.lexeme))
  | this {t : Token} : t.type = .thisKw → Primary expression [t] (.this t)
  | super {keyword dot method : Token} :
    keyword.type = .superKw → dot.type = .dot → method.type = .identifier →
    Primary expression [keyword, dot, method] (.super keyword method)
  | named {t : Token} : t.type = .identifier → Primary expression [t] (.named t)
  | grouping {left right : Token} {ts : List Token} {e : Expr} :
    left.type = .leftParen → expression ts e → right.type = .rightParen →
    Primary expression (left :: (ts ++ [right])) (.grouping e)

/-- `( "(" arguments? ")" | "." IDENTIFIER )*` after an expression, each for all before it. -/
inductive Trailers (expression : Lang Expr) : Expr → Lang Expr
  | nil (e : Expr) : Trailers expression e [] e
  | call {callee e : Expr} {left right : Token} {ts us : List Token} {arguments : List Expr} :
    left.type = .leftParen → Listed expression ts arguments → right.type = .rightParen →
    Trailers expression (.call callee right arguments) us e →
    Trailers expression callee (left :: (ts ++ right :: us)) e
  | get {object e : Expr} {dot name : Token} {ts : List Token} :
    dot.type = .dot → name.type = .identifier → Trailers expression (.get object name) ts e →
    Trailers expression object (dot :: name :: ts) e

/-- `call → primary ( "(" arguments? ")" | "." IDENTIFIER )*` -/
inductive Call (expression : Lang Expr) : Lang Expr
  | mk {ts us : List Token} {e e' : Expr} :
    Primary expression ts e → Trailers expression e us e' → Call expression (ts ++ us) e'

/-- `unary → ( "!" | "-" ) unary | call` -/
inductive UnaryOver (deeper expression : Lang Expr) : Lang Expr
  | operator {operator : Token} {ts : List Token} {e : Expr} :
    operator.type ∈ [TokenType.bang, .minus] → deeper ts e →
    UnaryOver deeper expression (operator :: ts) (.unary operator e)
  | call {ts : List Token} {e : Expr} : Call expression ts e → UnaryOver deeper expression ts e

/-- `( operator operand )*` after a left side, each for all before it. -/
inductive Operations (operators : List TokenType) (join : Expr → Token → Expr → Expr)
    (operand : Lang Expr) : Expr → Lang Expr
  | nil (e : Expr) : Operations operators join operand e [] e
  | cons {left right e : Expr} {operator : Token} {ts us : List Token} :
    operator.type ∈ operators → operand ts right →
    Operations operators join operand (join left operator right) us e →
    Operations operators join operand left (operator :: (ts ++ us)) e

/-- `operand ( operator operand )*` -/
inductive Chain (operators : List TokenType) (join : Expr → Token → Expr → Expr)
    (operand : Lang Expr) : Lang Expr
  | mk {ts us : List Token} {left e : Expr} :
    operand ts left → Operations operators join operand left us e →
    Chain operators join operand (ts ++ us) e

/-- `factor → unary ( ( "/" | "*" ) unary )*` -/
def Factor (unary : Lang Expr) : Lang Expr := Chain [.slash, .star] .binary unary

/-- `term → factor ( ( "-" | "+" ) factor )*` -/
def Term (unary : Lang Expr) : Lang Expr := Chain [.minus, .plus] .binary (Factor unary)

/-- `comparison → term ( ( ">" | ">=" | "<" | "<=" ) term )*` -/
def Comparison (unary : Lang Expr) : Lang Expr :=
  Chain [.greater, .greaterEqual, .less, .lessEqual] .binary (Term unary)

/-- `equality → comparison ( ( "!=" | "==" ) comparison )*` -/
def Equality (unary : Lang Expr) : Lang Expr :=
  Chain [.bangEqual, .equalEqual] .binary (Comparison unary)

/-- `logic_and → equality ( "and" equality )*` -/
def LogicAnd (unary : Lang Expr) : Lang Expr := Chain [.andKw] .logical (Equality unary)

/-- `logic_or → logic_and ( "or" logic_and )*` -/
def LogicOr (unary : Lang Expr) : Lang Expr := Chain [.orKw] .logical (LogicAnd unary)

/-- `assignment → ( call "." )? IDENTIFIER "=" assignment | logic_or`, the right side being an
expression -/
inductive Assignment (unary expression : Lang Expr) : Lang Expr
  | named {name equals : Token} {ts : List Token} {value : Expr} :
    name.type = .identifier → equals.type = .equal → expression ts value →
    Assignment unary expression (name :: equals :: ts) (.assign name value)
  | property {dot name equals : Token} {ts us : List Token} {object value : Expr} :
    Call expression ts object → dot.type = .dot → name.type = .identifier →
    equals.type = .equal → expression us value →
    Assignment unary expression (ts ++ dot :: name :: equals :: us) (.set object name value)
  | logicOr {ts : List Token} {e : Expr} :
    LogicOr unary ts e → Assignment unary expression ts e

mutual

/-- `expression → assignment`, which is a level -/
def Expression : (levels : Nat) → Lang Expr
  | 0 => Nothing
  | n + 1 => Assignment (Unary n) (Expression n)

/-- `unary`, whose operators enter a level each -/
def Unary : (levels : Nat) → Lang Expr
  | 0 => UnaryOver Nothing Nothing
  | n + 1 => UnaryOver (Unary n) (Assignment (Unary n) (Expression n))

end

/-! ## Statements -/

/-- `exprStmt → expression ";"` -/
inductive ExpressionStatement (expression : Lang Expr) : Lang Stmt
  | mk {semicolon : Token} {ts : List Token} {e : Expr} :
    expression ts e → semicolon.type = .semicolon →
    ExpressionStatement expression (ts ++ [semicolon]) (.expression e)

/-- `"=" expression` -/
inductive Initializer (expression : Lang Expr) : Lang Expr
  | mk {equals : Token} {ts : List Token} {e : Expr} :
    equals.type = .equal → expression ts e → Initializer expression (equals :: ts) e

/-- `varDecl → "var" IDENTIFIER ( "=" expression )? ";"` -/
inductive VarDeclaration (expression : Lang Expr) : Lang Stmt
  | mk {keyword name semicolon : Token} {ts : List Token} {initializer : Option Expr} :
    keyword.type = .varKw → name.type = .identifier →
    Maybe (Initializer expression) ts initializer → semicolon.type = .semicolon →
    VarDeclaration expression (keyword :: name :: (ts ++ [semicolon])) (.varDecl name initializer)

/-- `varDecl | exprStmt | ";"` -/
inductive ForInitializer (expression : Lang Expr) : Lang (Option Stmt)
  | none {semicolon : Token} :
    semicolon.type = .semicolon → ForInitializer expression [semicolon] none
  | varDecl {ts : List Token} {s : Stmt} :
    VarDeclaration expression ts s → ForInitializer expression ts (some s)
  | expression {ts : List Token} {s : Stmt} :
    ExpressionStatement expression ts s → ForInitializer expression ts (some s)

/-- `block → "{" declaration* "}"` -/
inductive Block (declaration : Lang Stmt) : Lang (List Stmt)
  | mk {left right : Token} {ts : List Token} {statements : List Stmt} :
    left.type = .leftBrace → Many declaration ts statements → right.type = .rightBrace →
    Block declaration (left :: (ts ++ [right])) statements

/-- `forStmt → "for" "(" ( varDecl | exprStmt | ";" ) expression? ";" expression? ")" statement` -/
inductive ForStatement (expression : Lang Expr) (statement : Bool → Lang Stmt) : Bool → Lang Stmt
  | mk {isOpen : Bool} {keyword left semicolon right : Token} {ts us vs xs : List Token}
    {initializer : Option Stmt} {condition increment : Option Expr} {body : Stmt} :
    keyword.type = .forKw → left.type = .leftParen → ForInitializer expression ts initializer →
    Maybe expression us condition → semicolon.type = .semicolon → Maybe expression vs increment →
    right.type = .rightParen → statement isOpen xs body →
    ForStatement expression statement isOpen
      (keyword :: left :: (ts ++ (us ++ semicolon :: (vs ++ right :: xs))))
      (.forLoop initializer condition increment body)

/-- `ifStmt → "if" "(" expression ")" statement ( "else" statement )?` -/
inductive IfStatement (expression : Lang Expr) (statement : Bool → Lang Stmt) : Bool → Lang Stmt
  | ifThen {isOpen : Bool} {keyword left right : Token} {ts us : List Token} {condition : Expr}
    {thenBranch : Stmt} :
    keyword.type = .ifKw → left.type = .leftParen → expression ts condition →
    right.type = .rightParen → statement isOpen us thenBranch →
    IfStatement expression statement true (keyword :: left :: (ts ++ right :: us))
      (.ifThen condition thenBranch)
  | ifElse {isOpen : Bool} {keyword left right other : Token} {ts us vs : List Token}
    {condition : Expr} {thenBranch elseBranch : Stmt} :
    keyword.type = .ifKw → left.type = .leftParen → expression ts condition →
    right.type = .rightParen → statement false us thenBranch → other.type = .elseKw →
    statement isOpen vs elseBranch →
    IfStatement expression statement isOpen
      (keyword :: left :: (ts ++ right :: (us ++ other :: vs)))
      (.ifElse condition thenBranch elseBranch)

/-- `printStmt → "print" expression ";"` -/
inductive PrintStatement (expression : Lang Expr) : Lang Stmt
  | mk {keyword semicolon : Token} {ts : List Token} {e : Expr} :
    keyword.type = .printKw → expression ts e → semicolon.type = .semicolon →
    PrintStatement expression (keyword :: (ts ++ [semicolon])) (.print e)

/-- `returnStmt → "return" expression? ";"` -/
inductive ReturnStatement (expression : Lang Expr) : Lang Stmt
  | mk {keyword semicolon : Token} {ts : List Token} {value : Option Expr} :
    keyword.type = .returnKw → Maybe expression ts value → semicolon.type = .semicolon →
    ReturnStatement expression (keyword :: (ts ++ [semicolon])) (.returns keyword value)

/-- `whileStmt → "while" "(" expression ")" statement` -/
inductive WhileStatement (expression : Lang Expr) (statement : Bool → Lang Stmt) :
    Bool → Lang Stmt
  | mk {isOpen : Bool} {keyword left right : Token} {ts us : List Token} {condition : Expr}
    {body : Stmt} :
    keyword.type = .whileKw → left.type = .leftParen → expression ts condition →
    right.type = .rightParen → statement isOpen us body →
    WhileStatement expression statement isOpen (keyword :: left :: (ts ++ right :: us))
      (.whileLoop condition body)

/-- `statement → exprStmt | forStmt | ifStmt | printStmt | returnStmt | whileStmt | block`, with a
mark that tells whether an `else` after it would belong to an `if` inside it -/
inductive StatementOver (expression : Lang Expr) (statement : Bool → Lang Stmt)
    (declaration : Lang Stmt) : Bool → Lang Stmt
  | expression {ts : List Token} {s : Stmt} :
    ExpressionStatement expression ts s → StatementOver expression statement declaration false ts s
  | forLoop {isOpen : Bool} {ts : List Token} {s : Stmt} :
    ForStatement expression statement isOpen ts s →
    StatementOver expression statement declaration isOpen ts s
  | branch {isOpen : Bool} {ts : List Token} {s : Stmt} :
    IfStatement expression statement isOpen ts s →
    StatementOver expression statement declaration isOpen ts s
  | print {ts : List Token} {s : Stmt} :
    PrintStatement expression ts s → StatementOver expression statement declaration false ts s
  | returns {ts : List Token} {s : Stmt} :
    ReturnStatement expression ts s → StatementOver expression statement declaration false ts s
  | whileLoop {isOpen : Bool} {ts : List Token} {s : Stmt} :
    WhileStatement expression statement isOpen ts s →
    StatementOver expression statement declaration isOpen ts s
  | block {ts : List Token} {statements : List Stmt} :
    Block declaration ts statements →
    StatementOver expression statement declaration false ts (.block statements)

/-! ## Declarations -/

/-- `function → IDENTIFIER "(" parameters? ")" block` -/
inductive FunctionOver (body : Lang (List Stmt)) : Lang Function
  | mk {name left right : Token} {ts us params : List Token} {statements : List Stmt} :
    name.type = .identifier → left.type = .leftParen → Listed (Terminal .identifier) ts params →
    right.type = .rightParen → body us statements →
    FunctionOver body (name :: left :: (ts ++ right :: us)) (.defined name params statements)

/-- `"<" IDENTIFIER` -/
inductive Parent : Lang Token
  | mk {less name : Token} :
    less.type = .less → name.type = .identifier → Parent [less, name] name

/-- `classDecl → "class" IDENTIFIER ( "<" IDENTIFIER )? "{" function* "}"` -/
inductive ClassDeclaration (body : Lang (List Stmt)) : Lang Stmt
  | mk {keyword name left right : Token} {ts us : List Token} {parent : Option Token}
    {methods : List Function} :
    keyword.type = .classKw → name.type = .identifier → Maybe Parent ts parent →
    left.type = .leftBrace → Many (FunctionOver body) us methods → right.type = .rightBrace →
    ClassDeclaration body (keyword :: name :: (ts ++ left :: (us ++ [right])))
      (.classDecl name parent methods)

/-- `declaration → classDecl | "fun" function | varDecl | statement` -/
inductive DeclarationOver (expression : Lang Expr) (body : Lang (List Stmt))
    (statement : Bool → Lang Stmt) : Lang Stmt
  | classDecl {ts : List Token} {s : Stmt} :
    ClassDeclaration body ts s → DeclarationOver expression body statement ts s
  | function {keyword : Token} {ts : List Token} {f : Function} :
    keyword.type = .funKw → FunctionOver body ts f →
    DeclarationOver expression body statement (keyword :: ts) (.function f)
  | varDecl {ts : List Token} {s : Stmt} :
    VarDeclaration expression ts s → DeclarationOver expression body statement ts s
  | statement {isOpen : Bool} {ts : List Token} {s : Stmt} :
    statement isOpen ts s → DeclarationOver expression body statement ts s

mutual

/-- `statement`, which is a level -/
def Statement : (levels : Nat) → Bool → Lang Stmt
  | 0 => fun _ => Nothing
  | n + 1 => StatementOver (Expression n) (Statement n) (Declaration n)

/-- `declaration`, in which the body of a function is a level -/
def Declaration : (levels : Nat) → Lang Stmt
  | 0 => DeclarationOver Nothing Nothing (fun _ => Nothing)
  | n + 1 =>
    DeclarationOver (Expression (n + 1)) (Block (Declaration n))
      (StatementOver (Expression n) (Statement n) (Declaration n))

end

/-- `program → declaration*`, up to the mark of the end -/
def Program (levels : Nat) : Lang (List Stmt) := Many (Declaration levels)

end Grammar

end Lox
