import Lox.Rule.Expression

/-!
# Statements and declarations

A statement and the body of a function are one level of nesting each. A declaration is no level of
its own, so `declaration` with some levels reads a statement with as many, and a function body with
one fewer.
-/

namespace Lox.Rule

variable {σ : Type} [Windowed σ]

/-- Reads an expression and the semicolon after it. -/
def expressionStatement (expression : RuleIn σ Expr) : RuleIn σ Stmt := do
  let e ← expression
  let _ ← expect .semicolon "Expect ';' after expression."
  return .expression e

/-- Reads the rest of a variable declaration after `var`. -/
def varDeclaration (expression : RuleIn σ Expr) : RuleIn σ Stmt := do
  let name ← expect .identifier "Expect variable name."
  let initializer ← match ← accept [.equal] with
    | some _ => some <$> expression
    | none => pure none
  let _ ← expect .semicolon "Expect ';' after variable declaration."
  return .varDecl name initializer

/-- Reads an expression unless a token of a given type comes. -/
def optionalUntil (type : TokenType) (expression : RuleIn σ Expr) : RuleIn σ (Option Expr) := do
  if ← comes type then return none else some <$> expression

/-- Reads the first clause of a `for` loop, its semicolon included. -/
def forInitializer (expression : RuleIn σ Expr) : RuleIn σ (Option Stmt) := do
  match (← peek).type with
  | .semicolon => let _ ← read; return none
  | .varKw => let _ ← read; some <$> varDeclaration expression
  | _ => some <$> expressionStatement expression

/-- Reads the rest of a `for` loop after `for`. -/
def forStatement (expression : RuleIn σ Expr) (statement : RuleIn σ Stmt) : RuleIn σ Stmt := do
  let _ ← expect .leftParen "Expect '(' after 'for'."
  let initializer ← forInitializer expression
  let condition ← optionalUntil .semicolon expression
  let _ ← expect .semicolon "Expect ';' after loop condition."
  let increment ← optionalUntil .rightParen expression
  let _ ← expect .rightParen "Expect ')' after for clauses."
  let body ← statement
  return .forLoop initializer condition increment body

/-- Reads the rest of an `if` statement after `if`. An `else` belongs to the nearest `if` that is
still open. -/
def ifStatement (expression : RuleIn σ Expr) (statement : RuleIn σ Stmt) : RuleIn σ Stmt := do
  let _ ← expect .leftParen "Expect '(' after 'if'."
  let condition ← expression
  let _ ← expect .rightParen "Expect ')' after if condition."
  let thenBranch ← statement
  match ← accept [.elseKw] with
  | some _ => return .ifElse condition thenBranch (← statement)
  | none => return .ifThen condition thenBranch

/-- Reads the rest of a `print` statement after `print`. -/
def printStatement (expression : RuleIn σ Expr) : RuleIn σ Stmt := do
  let e ← expression
  let _ ← expect .semicolon "Expect ';' after value."
  return .print e

/-- Reads the rest of a `return` statement after its keyword. -/
def returnStatement (keyword : Token) (expression : RuleIn σ Expr) : RuleIn σ Stmt := do
  let value ← optionalUntil .semicolon expression
  let _ ← expect .semicolon "Expect ';' after return value."
  return .returns keyword value

/-- Reads the rest of a `while` loop after `while`. -/
def whileStatement (expression : RuleIn σ Expr) (statement : RuleIn σ Stmt) : RuleIn σ Stmt := do
  let _ ← expect .leftParen "Expect '(' after 'while'."
  let condition ← expression
  let _ ← expect .rightParen "Expect ')' after condition."
  let body ← statement
  return .whileLoop condition body

/-- Reads declarations up to a closing brace, and the brace. -/
def block (declaration : RuleIn σ Stmt) : RuleIn σ (List Stmt) :=
  braced declaration "Expect '\x7d' after block."

/-- Reads parameter names. A comma that no name follows ends the list. -/
def parameters : RuleIn σ (List Token) := do
  match ← accept [.identifier] with
  | none => return []
  | some first =>
    List.reverse <$> loop (fun done => do
      match ← accept [.comma] with
      | some _ => return (← accept [.identifier]).map (· :: done)
      | none => return none) [first]

/-- Reads a function from its name on. Messages call it by its role, a function or a method. -/
def function (role : String) (body : RuleIn σ (List Stmt)) : RuleIn σ Function := do
  let name ← expect .identifier ("Expect " ++ role ++ " name.")
  let _ ← expect .leftParen ("Expect '(' after " ++ role ++ " name.")
  let params ← parameters
  let _ ← expect .rightParen "Expect ')' after parameters."
  let _ ← expect .leftBrace ("Expect '\x7b' before " ++ role ++ " body.")
  let statements ← body
  return .defined name params statements

/-- Reads the name of a superclass, if a less-than sign announces one. -/
def superclass : RuleIn σ (Option Token) := do
  match ← accept [.less] with
  | some _ => some <$> expect .identifier "Expect superclass name."
  | none => return none

/-- Reads the rest of a class declaration after `class`. -/
def classDeclaration (body : RuleIn σ (List Stmt)) : RuleIn σ Stmt := do
  let name ← expect .identifier "Expect class name."
  let parent ← superclass
  let _ ← expect .leftBrace "Expect '\x7b' before class body."
  let methods ← braced (function "method" body) "Expect '\x7d' after class body."
  return .classDecl name parent methods

/-- Reads a statement whose parts are given by rules. -/
def statementOver (expression : RuleIn σ Expr) (statement declaration : RuleIn σ Stmt) :
    RuleIn σ Stmt := do
  match (← peek).type with
  | .forKw => let _ ← read; forStatement expression statement
  | .ifKw => let _ ← read; ifStatement expression statement
  | .printKw => let _ ← read; printStatement expression
  | .returnKw => let keyword ← read; returnStatement keyword expression
  | .whileKw => let _ ← read; whileStatement expression statement
  | .leftBrace => let _ ← read; .block <$> block declaration
  | _ => expressionStatement expression

/-- Reads a declaration whose parts are given by rules. -/
def declarationOver (expression : RuleIn σ Expr) (body : RuleIn σ (List Stmt))
    (statement : RuleIn σ Stmt) : RuleIn σ Stmt := do
  match (← peek).type with
  | .classKw => let _ ← read; classDeclaration body
  | .funKw => let _ ← read; .function <$> function "function" body
  | .varKw => let _ ← read; varDeclaration expression
  | _ => statement

mutual

/-- Reads a statement that may take a number of levels of nesting, its own among them. -/
def statement (limit : Int) : (levels : Nat) → Rule Stmt
  | 0 => fail (.tooDeep limit)
  | levels + 1 => fun w =>
    statementOver (expression limit levels) (statement limit levels) (declaration limit levels) w

/-- Reads a declaration; what is nested in it may take a number of levels. -/
def declaration (limit : Int) : (levels : Nat) → Rule Stmt
  | 0 =>
    declarationOver (fail (.tooDeep limit)) (fail (.tooDeep limit)) (fail (.tooDeep limit))
  | levels + 1 => fun w =>
    declarationOver (expression limit (levels + 1)) (block (declaration limit levels))
      (statementOver (expression limit levels) (statement limit levels)
        (declaration limit levels)) w

end

end Lox.Rule
