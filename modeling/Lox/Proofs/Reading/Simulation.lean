import Lox.Proofs.Rule.Simulation
import Lox.Rule.Statement

/-!
# Simulations of the rules

Every rule for expressions, statements and declarations matches itself in a simulation, if the rules
for its parts match each other. How the parts come to be nested is left to the simulation.
-/

namespace Lox.Rule.Simulation

variable {σ τ : Type} [Windowed σ] [Windowed τ] (S : Simulation σ τ)

/-! ## Expressions -/

section Expressions

variable {operand deeper expression : RuleIn σ Expr} {operand' deeper' expression' : RuleIn τ Expr}

/-- Chains of operands match. -/
theorem chain (tier : Tier) (h : S.Matches operand operand') :
    S.Matches (chain tier operand) (chain tier operand') := by
  refine S.bind h (S.loop fun left => S.bind (S.accept tier.operators) fun found => ?_)
  cases found with
  | none => exact S.pure none
  | some operator => exact S.bind h fun right => S.pure _

/-- Chains of some tiers match. -/
theorem ladder (rungs : List Tier) (h : S.Matches operand operand') :
    S.Matches (ladder rungs operand) (ladder rungs operand') := by
  induction rungs with
  | nil => exact h
  | cons tier tighter ih => exact S.chain tier ih

/-- Lists of arguments match. -/
theorem arguments (h : S.Matches expression expression') :
    S.Matches (arguments expression) (arguments expression') := by
  refine S.bind (S.comes .rightParen) fun closed => ?_
  cases closed with
  | true => exact S.pure []
  | false =>
    refine S.bind h fun first => S.map (S.loop (fun done => ?_) [first]) List.reverse
    refine S.bind (S.accept [.comma]) fun found => ?_
    cases found with
    | none => exact S.pure none
    | some comma =>
      refine S.bind (S.comes .rightParen) fun closed => ?_
      cases closed with
      | true => exact S.pure none
      | false => exact S.bind h fun e => S.pure _

/-- Trailers match. -/
theorem trailers (h : S.Matches expression expression') (e : Expr) :
    S.Matches (trailers expression e) (trailers expression' e) := by
  refine S.loop (fun e => S.bind S.peek fun t => ?_) e
  cases t.type with
  | leftParen =>
    exact S.bind S.read fun _ => S.bind (S.arguments h) fun args =>
      S.bind (S.expect _ _) fun paren => S.pure _
  | dot => exact S.bind S.read fun _ => S.bind (S.expect _ _) fun name => S.pure _
  | _ => exact S.pure none

/-- Primary expressions match. -/
theorem primary (h : S.Matches expression expression') :
    S.Matches (primary expression) (primary expression') := by
  refine S.bind S.peek fun t => ?_
  cases t.type with
  | falseKw | trueKw | nilKw | number | string | thisKw | identifier =>
    exact S.bind S.read fun t => S.pure _
  | superKw =>
    exact S.bind S.read fun keyword => S.bind (S.expect _ _) fun _ =>
      S.bind (S.expect _ _) fun method => S.pure _
  | leftParen =>
    exact S.bind S.read fun _ => S.bind h fun inner => S.bind (S.expect _ _) fun _ => S.pure _
  | _ => exact S.fail _

/-- Operands of binary operators match. -/
theorem unaryOver (hd : S.Matches deeper deeper') (h : S.Matches expression expression') :
    S.Matches (unaryOver deeper expression) (unaryOver deeper' expression') := by
  refine S.bind (S.accept unaryOperators) fun found => ?_
  cases found with
  | none => exact S.bind (S.primary h) (S.trailers h)
  | some operator => exact S.bind hd fun right => S.pure _

/-- Assignments match. -/
theorem assignment (ho : S.Matches operand operand') (h : S.Matches expression expression') :
    S.Matches (assignment operand expression) (assignment operand' expression') := by
  refine S.bind (S.ladder tiers ho) fun target => S.bind (S.accept [.equal]) fun found => ?_
  cases found with
  | none => exact S.pure target
  | some equals =>
    refine S.bind h fun value => ?_
    cases target with
    | named name => exact S.pure _
    | get object name => exact S.pure _
    | _ => exact S.blame _ equals

end Expressions

/-! ## Statements -/

section Statements

variable {expression : RuleIn σ Expr} {expression' : RuleIn τ Expr}
  {statement declaration : RuleIn σ Stmt} {statement' declaration' : RuleIn τ Stmt}
  {body : RuleIn σ (List Stmt)} {body' : RuleIn τ (List Stmt)}

/-- Expression statements match. -/
theorem expressionStatement (h : S.Matches expression expression') :
    S.Matches (expressionStatement expression) (expressionStatement expression') :=
  S.bind h fun _ => S.bind (S.expect _ _) fun _ => S.pure _

/-- Variable declarations match. -/
theorem varDeclaration (h : S.Matches expression expression') :
    S.Matches (varDeclaration expression) (varDeclaration expression') := by
  refine S.bind (S.expect _ _) fun name => S.bind (S.accept [.equal]) fun found => ?_
  cases found with
  | none => exact S.bind (S.pure none) fun value => S.bind (S.expect _ _) fun _ => S.pure _
  | some equals => exact S.bind (S.map h some) fun value => S.bind (S.expect _ _) fun _ => S.pure _

/-- Expressions that may be left out match. -/
theorem optionalUntil (type : TokenType) (h : S.Matches expression expression') :
    S.Matches (optionalUntil type expression) (optionalUntil type expression') := by
  refine S.bind (S.comes type) fun ends => ?_
  cases ends with
  | true => exact S.pure none
  | false => exact S.map h some

/-- First clauses of `for` loops match. -/
theorem forInitializer (h : S.Matches expression expression') :
    S.Matches (forInitializer expression) (forInitializer expression') := by
  refine S.bind S.peek fun t => ?_
  cases t.type with
  | semicolon => exact S.bind S.read fun _ => S.pure none
  | varKw => exact S.bind S.read fun _ => S.map (S.varDeclaration h) some
  | _ => exact S.map (S.expressionStatement h) some

/-- `for` loops match. -/
theorem forStatement (h : S.Matches expression expression') (hs : S.Matches statement statement') :
    S.Matches (forStatement expression statement) (forStatement expression' statement') :=
  S.bind (S.expect _ _) fun _ => S.bind (S.forInitializer h) fun _ =>
    S.bind (S.optionalUntil _ h) fun _ => S.bind (S.expect _ _) fun _ =>
    S.bind (S.optionalUntil _ h) fun _ => S.bind (S.expect _ _) fun _ =>
    S.bind hs fun _ => S.pure _

/-- `if` statements match. -/
theorem ifStatement (h : S.Matches expression expression') (hs : S.Matches statement statement') :
    S.Matches (ifStatement expression statement) (ifStatement expression' statement') := by
  refine S.bind (S.expect _ _) fun _ => S.bind h fun condition => S.bind (S.expect _ _) fun _ =>
    S.bind hs fun thenBranch => S.bind (S.accept [.elseKw]) fun found => ?_
  cases found with
  | none => exact S.pure _
  | some keyword => exact S.bind hs fun elseBranch => S.pure _

/-- `return` statements match. -/
theorem returnStatement (keyword : Token) (h : S.Matches expression expression') :
    S.Matches (returnStatement keyword expression) (returnStatement keyword expression') :=
  S.bind (S.optionalUntil _ h) fun _ => S.bind (S.expect _ _) fun _ => S.pure _

/-- `while` loops match. -/
theorem whileStatement (h : S.Matches expression expression')
    (hs : S.Matches statement statement') :
    S.Matches (whileStatement expression statement) (whileStatement expression' statement') :=
  S.bind (S.expect _ _) fun _ => S.bind h fun _ => S.bind (S.expect _ _) fun _ =>
    S.bind hs fun _ => S.pure _

/-- Parameter names match. -/
theorem parameters : S.Matches parameters parameters := by
  refine S.bind (S.accept [.identifier]) fun found => ?_
  cases found with
  | none => exact S.pure []
  | some first =>
    refine S.map (S.loop (fun done => ?_) [first]) List.reverse
    refine S.bind (S.accept [.comma]) fun found => ?_
    cases found with
    | none => exact S.pure none
    | some comma => exact S.bind (S.accept [.identifier]) fun name => S.pure _

/-- Functions match. -/
theorem function (role : String) (h : S.Matches body body') :
    S.Matches (function role body) (function role body') :=
  S.bind (S.expect _ _) fun _ => S.bind (S.expect _ _) fun _ => S.bind S.parameters fun _ =>
    S.bind (S.expect _ _) fun _ => S.bind (S.expect _ _) fun _ => S.bind h fun _ => S.pure _

/-- Classes match. -/
theorem classDeclaration (h : S.Matches body body') :
    S.Matches (classDeclaration body) (classDeclaration body') := by
  have parent : S.Matches superclass superclass := by
    refine S.bind (S.accept [.less]) fun found => ?_
    cases found with
    | none => exact S.pure none
    | some less => exact S.map (S.expect _ _) some
  exact S.bind (S.expect _ _) fun _ => S.bind parent fun _ => S.bind (S.expect _ _) fun _ =>
    S.bind (S.braced (S.function "method" h) _) fun _ => S.pure _

/-- Statements match if their parts do. -/
theorem statementOver (h : S.Matches expression expression') (hs : S.Matches statement statement')
    (hd : S.Matches declaration declaration') :
    S.Matches (statementOver expression statement declaration)
      (statementOver expression' statement' declaration') := by
  refine S.bind S.peek fun t => ?_
  cases t.type with
  | forKw => exact S.bind S.read fun _ => S.forStatement h hs
  | ifKw => exact S.bind S.read fun _ => S.ifStatement h hs
  | printKw =>
    exact S.bind S.read fun _ => S.bind h fun _ => S.bind (S.expect _ _) fun _ => S.pure _
  | returnKw => exact S.bind S.read fun keyword => S.returnStatement keyword h
  | whileKw => exact S.bind S.read fun _ => S.whileStatement h hs
  | leftBrace => exact S.bind S.read fun _ => S.map (S.braced hd _) Stmt.block
  | _ => exact S.expressionStatement h

/-- Declarations match if their parts do. -/
theorem declarationOver (h : S.Matches expression expression') (hb : S.Matches body body')
    (hs : S.Matches statement statement') :
    S.Matches (declarationOver expression body statement)
      (declarationOver expression' body' statement') := by
  refine S.bind S.peek fun t => ?_
  cases t.type with
  | classKw => exact S.bind S.read fun _ => S.classDeclaration hb
  | funKw => exact S.bind S.read fun _ => S.map (S.function "function" hb) Stmt.function
  | varKw => exact S.bind S.read fun _ => S.varDeclaration h
  | _ => exact hs

end Statements

end Lox.Rule.Simulation
