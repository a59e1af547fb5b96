import Lox.Proofs.Grammar.Mono
import Lox.Proofs.Grammar.Statement

/-!
# The expansion of a `for` loop

A `for` loop has no tree of its own: `Stmt.forLoop` says which `while` loop it stands for. Here the
same is said of its tokens. `for ( I C ; N ) S` expands to `{ I while ( C ) { S N ; } }`, where
braces come with a clause and are left out with it, and the expansion is a statement for the tree of
the loop (`statement_expansion`). With braces around it the statement has no open `if`, so an `else`
behind it belongs elsewhere; without them it has one if the body of the loop has.
-/

namespace Lox

open Grammar

/-- A token of a given type. -/
abbrev TokenOf (type : TokenType) := { t : Token // t.type = type }

/-- The tokens of a `for` loop, cut at its clauses. -/
structure ForLoop where
  keyword : TokenOf .forKw
  left : TokenOf .leftParen
  /-- The first clause with its semicolon, which may be by itself. -/
  initializer : List Token
  /-- The second clause, if there is one. -/
  condition : List Token
  semicolon : TokenOf .semicolon
  /-- The third clause, if there is one. -/
  increment : List Token
  right : TokenOf .rightParen
  body : List Token

/-- The tokens that an expansion puts around the clauses of a loop. -/
structure Frame where
  outerLeft : TokenOf .leftBrace
  keyword : TokenOf .whileKw
  left : TokenOf .leftParen
  /-- What stands for a condition that is left out. -/
  always : TokenOf .trueKw
  right : TokenOf .rightParen
  innerLeft : TokenOf .leftBrace
  semicolon : TokenOf .semicolon
  innerRight : TokenOf .rightBrace
  outerRight : TokenOf .rightBrace

namespace ForLoop

/-- The tokens behind the keyword. -/
def rest (f : ForLoop) : List Token :=
  f.left.1 :: (f.initializer ++
    (f.condition ++ f.semicolon.1 :: (f.increment ++ f.right.1 :: f.body)))

/-- The tokens of the loop. -/
def row (f : ForLoop) : List Token := f.keyword.1 :: f.rest

/-- The condition, or `true` if it is left out. -/
def test (f : ForLoop) (frame : Frame) : List Token :=
  if f.condition.isEmpty then [frame.always.1] else f.condition

/-- The body, in a block with the increment if there is one. -/
def turn (f : ForLoop) (frame : Frame) : List Token :=
  if f.increment.isEmpty then f.body
  else frame.innerLeft.1 :: (f.body ++ (f.increment ++ [frame.semicolon.1]) ++ [frame.innerRight.1])

/-- The `while` loop over the condition and the body. -/
def whileRow (f : ForLoop) (frame : Frame) : List Token :=
  frame.keyword.1 :: frame.left.1 :: (f.test frame ++ frame.right.1 :: f.turn frame)

/-- The `while` loop that the loop stands for, in a block with the first clause unless that is a
semicolon by itself. -/
def expansion (f : ForLoop) (frame : Frame) : List Token :=
  if f.initializer.length = 1 then f.whileRow frame
  else frame.outerLeft.1 :: (f.initializer ++ f.whileRow frame ++ [frame.outerRight.1])

end ForLoop

namespace Grammar

variable {n : Nat} {isOpen : Bool} {f : ForLoop} {first : Option Stmt}
  {condition last : Option Expr} {body : Stmt}

/-- A literal, a name or an expression in parentheses is an expression. -/
theorem expression_of_primary {ts : List Token} {e : Expr} (phrase : Primary (Expression n) ts e) :
    Expression (n + 1) ts e := by
  have call : Call (Expression n) (ts ++ []) e := .mk phrase (.nil e)
  rw [List.append_nil] at call
  rw [Expression, unary_eq]
  exact .logicOr (logicOr_of_operand (.call call))

/-- The first clause is the semicolon by itself just if no statement comes of it. -/
theorem length_forInitializer {ts : List Token} (phrase : ForInitializer (Expression n) ts first) :
    ts.length = 1 ↔ first = none := by
  cases phrase with
  | none => simp
  | varDecl phrase =>
    obtain ⟨-, -, -, -⟩ := phrase
    simp
  | expression phrase =>
    obtain ⟨inner, -⟩ := phrase
    obtain ⟨t, us, rfl, -⟩ := begins_expression n inner
    simp

/-- A first clause that is a statement is a declaration. -/
theorem declaration_of_forInitializer {ts : List Token} {s : Stmt}
    (phrase : ForInitializer (Expression n) ts (some s)) : Declaration (n + 1) ts s := by
  cases phrase with
  | varDecl phrase => exact .varDecl (varDeclaration_mono (expression_mono (Nat.le_succ n)) phrase)
  | expression phrase => exact .statement (.expression phrase)

/-- The condition of the expansion is an expression. -/
theorem expression_test (phrase : Maybe (Expression n) f.condition condition) (frame : Frame) :
    Expression (n + 1) (f.test frame) (condition.getD (.literal (.bool true))) := by
  unfold ForLoop.test
  generalize f.condition = ts at phrase
  cases phrase with
  | none => exact expression_of_primary (.true frame.always.2)
  | some inner =>
    obtain ⟨t, us, rfl, -⟩ := begins_expression n inner
    exact expression_mono (Nat.le_succ n) inner

/-- The body of the expansion is a statement, which has an open `if` at most where the body of the
loop has one. -/
theorem statement_turn (phrase : Maybe (Expression n) f.increment last)
    (inner : Statement n isOpen f.body body) (frame : Frame) :
    ∃ mark, (mark = true → isOpen = true) ∧
      Statement (n + 2) mark (f.turn frame) (body.withIncrement last) := by
  unfold ForLoop.turn
  generalize f.increment = ts at phrase
  cases phrase with
  | none => exact ⟨isOpen, id, statement_mono (by omega) isOpen inner⟩
  | some value =>
    obtain ⟨t, us, rfl, -⟩ := begins_expression n value
    have one : Declaration (n + 1) f.body body :=
      .statement (statement_mono (Nat.le_succ n) isOpen inner)
    have two : Declaration (n + 1) (t :: us ++ [frame.semicolon.1]) (.expression _) :=
      .statement (.expression (.mk value frame.semicolon.2))
    have both := Many.cons one (.cons two .nil)
    rw [List.append_nil] at both
    exact ⟨false, Bool.noConfusion, .block (.mk frame.innerLeft.2 both frame.innerRight.2)⟩

/-- The expansion of a loop is a statement for the tree of the loop. It has an open `if` at most
where the body of the loop has one. -/
theorem statement_expansion (initializer : ForInitializer (Expression n) f.initializer first)
    (test : Maybe (Expression n) f.condition condition)
    (increment : Maybe (Expression n) f.increment last) (inner : Statement n isOpen f.body body)
    (frame : Frame) :
    ∃ mark, (mark = true → isOpen = true) ∧
      Statement (n + 4) mark (f.expansion frame) (.forLoop first condition last body) := by
  obtain ⟨mark, le, turn⟩ := statement_turn increment inner frame
  have loop : Statement (n + 3) mark (f.whileRow frame) _ :=
    .whileLoop (.mk frame.keyword.2 frame.left.2
      (expression_mono (Nat.le_succ _) (expression_test test frame)) frame.right.2 turn)
  -- Without a first clause the loop stands for itself, and else in a block with it.
  have bare := length_forInitializer initializer
  unfold ForLoop.expansion
  cases first with
  | none =>
    rw [if_pos (bare.2 rfl)]
    exact ⟨mark, le, statement_mono (Nat.le_succ _) mark loop⟩
  | some s =>
    have one : Declaration (n + 3) f.initializer s :=
      declaration_mono (by omega) (declaration_of_forInitializer initializer)
    have both := Many.cons one (.cons (.statement loop) .nil)
    rw [List.append_nil] at both
    rw [if_neg (by simp [bare])]
    exact ⟨false, Bool.noConfusion, .block (.mk frame.outerLeft.2 both frame.outerRight.2)⟩

end Grammar

end Lox
