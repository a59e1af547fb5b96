import Lox.Rule.Loop
import Lox.Tree.Basic

/-!
# Expressions

The binary operators stand in tiers, from the loosest to the tightest; `ladder` reads a chain of
operands and operators on each. `expression` and `unary` go down one level of nesting at a time: an
expression within parentheses or arguments, the right side of an assignment and the operand of a
unary operator are one level further down.
-/

namespace Lox

/-- Operators that bind equally tightly, and the node they make. -/
structure Tier where
  /-- The types of the operators. -/
  operators : List TokenType
  /-- The node of an operator and its two sides. -/
  join : Expr → Token → Expr → Expr

/-- The tiers of binary operators, the loosest first. -/
def tiers : List Tier :=
  [⟨[.orKw], .logical⟩,
   ⟨[.andKw], .logical⟩,
   ⟨[.bangEqual, .equalEqual], .binary⟩,
   ⟨[.greater, .greaterEqual, .less, .lessEqual], .binary⟩,
   ⟨[.minus, .plus], .binary⟩,
   ⟨[.slash, .star], .binary⟩]

/-- The operators that stand in front of their operand. -/
def unaryOperators : List TokenType := [.bang, .minus]

namespace Rule

variable {σ : Type} [Windowed σ]

/-- Reads operands with operators of a tier between them. Each operator takes all that was read
before it as its left side. -/
def chain (tier : Tier) (operand : RuleIn σ Expr) : RuleIn σ Expr := do
  loop (fun left => do
    match ← accept tier.operators with
    | some operator => return some (tier.join left operator (← operand))
    | none => return none) (← operand)

/-- Reads an expression of the first of some tiers, whose operands belong to the next, down to the
operands of the last. -/
def ladder : List Tier → RuleIn σ Expr → RuleIn σ Expr
  | [], operand => operand
  | tier :: tighter, operand => chain tier (ladder tighter operand)

/-- Reads the arguments of a call, up to the closing parenthesis. A comma in front of it ends the
list. -/
def arguments (expression : RuleIn σ Expr) : RuleIn σ (List Expr) := do
  if ← comes .rightParen then return []
  else
    List.reverse <$> loop (fun done => do
      match ← accept [.comma] with
      | some _ =>
        if ← comes .rightParen then return none else return some ((← expression) :: done)
      | none => return none) [← expression]

/-- Reads calls and property names after the expression that they belong to. -/
def trailers (expression : RuleIn σ Expr) : Expr → RuleIn σ Expr :=
  loop fun e => do
    match (← peek).type with
    | .leftParen =>
      let _ ← read
      let args ← arguments expression
      let paren ← expect .rightParen "Expect ')' after arguments."
      return some (.call e paren args)
    | .dot =>
      let _ ← read
      let name ← expect .identifier "Expect property name after '.'."
      return some (.get e name)
    | _ => return none

/-- Reads a literal, a name, or an expression in parentheses. -/
def primary (expression : RuleIn σ Expr) : RuleIn σ Expr := do
  match (← peek).type with
  | .falseKw => let _ ← read; return .literal (.bool false)
  | .trueKw => let _ ← read; return .literal (.bool true)
  | .nilKw => let _ ← read; return .literal .nil
  | .number => return .literal (.ofNumber (← read).literal)
  | .string => return .literal (.ofText (← read).lexeme)
  | .thisKw => return .this (← read)
  | .superKw =>
    let keyword ← read
    let _ ← expect .dot "Expect '.' after 'super'."
    let method ← expect .identifier "Expect superclass method name."
    return .super keyword method
  | .identifier => return .named (← read)
  | .leftParen =>
    let _ ← read
    let inner ← expression
    let _ ← expect .rightParen "Expect ')' after expression."
    return .grouping inner
  | _ => fail .noExpression

/-- Reads a primary expression and what trails it. -/
def call (expression : RuleIn σ Expr) : RuleIn σ Expr := do
  trailers expression (← primary expression)

/-- Reads a unary operator and its operand, which is one level further down, or a call. -/
def unaryOver (deeper expression : RuleIn σ Expr) : RuleIn σ Expr := do
  match ← accept unaryOperators with
  | some operator => return .unary operator (← deeper)
  | none => call expression

/-- Reads an expression whose operands and right side are given by rules. What an equals sign
follows must be a name or a property; this is found out after the right side was read. -/
def assignment (operand expression : RuleIn σ Expr) : RuleIn σ Expr := do
  let target ← ladder tiers operand
  match ← accept [.equal] with
  | none => return target
  | some equals =>
    let value ← expression
    match target with
    | .named name => return .assign name value
    | .get object name => return .set object name value
    | _ => blame .invalidTarget equals

mutual

/-- Reads an expression that may take a number of levels of nesting, its own among them. -/
def expression (limit : Int) : (levels : Nat) → Rule Expr
  | 0 => fail (.tooDeep limit)
  | levels + 1 => fun w => assignment (unary limit levels) (expression limit levels) w

/-- Reads an operand of binary operators; what is nested in it may take a number of levels. -/
def unary (limit : Int) : (levels : Nat) → Rule Expr
  | 0 => unaryOver (fail (.tooDeep limit)) (fail (.tooDeep limit))
  | levels + 1 => fun w =>
    unaryOver (unary limit levels) (assignment (unary limit levels) (expression limit levels)) w

end

end Rule

end Lox
