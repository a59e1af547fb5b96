import Lox.Proofs.Grammar.Phrase

/-!
# Expressions of the grammar

Two facts about the rules for expressions decide how they can be read. The first token of a phrase
tells an expression from what else may stand in its place (`begins_expression`). And an expression
that ends up as a name or a property was one on its own, without operators around it
(`eq_of_named`, `split_of_get`), so that the target of an assignment can be read as if it were any
expression.
-/

namespace Lox.Grammar

variable {α : Type} {types : List TokenType}

/-- Every phrase of a language starts with a token of some types. -/
def Begins (types : List TokenType) (L : Lang α) : Prop :=
  ∀ ⦃ts a⦄, L ts a → ∃ t us, ts = t :: us ∧ t.type ∈ types

/-- The types of tokens that a literal, a name or an expression in parentheses starts with. -/
def primaryStarters : List TokenType :=
  [.falseKw, .trueKw, .nilKw, .number, .string, .thisKw, .superKw, .identifier, .leftParen]

/-- The types of tokens that an expression starts with. -/
def expressionStarters : List TokenType := .bang :: .minus :: primaryStarters

/-- A level of operands for every level of expressions. -/
def Deeper : (levels : Nat) → Lang Expr
  | 0 => Nothing
  | n + 1 => Unary n

/-- What a unary operator and a call may nest at a level. -/
theorem unary_eq (n : Nat) : Unary n = UnaryOver (Deeper n) (Expression n) := by
  cases n <;> rfl

/-! ## First tokens -/

/-- A phrase that goes on starts as it did before. -/
theorem begins_append {ts us : List Token} (h : ∃ t vs, ts = t :: vs ∧ t.type ∈ types) :
    ∃ t vs, ts ++ us = t :: vs ∧ t.type ∈ types := by
  obtain ⟨t, vs, rfl, mem⟩ := h
  exact ⟨t, vs ++ us, rfl, mem⟩

/-- Calls start as primary expressions do. -/
theorem begins_call (L : Lang Expr) : Begins primaryStarters (Call L) := by
  rintro _ _ ⟨first, -⟩
  refine begins_append ?_
  cases first with
  | false shown | true shown | nil shown | number shown | string shown | this shown | super shown
  | named shown | grouping shown => exact ⟨_, _, rfl, by rw [shown]; decide⟩

/-- Operands start with a unary operator or as calls do. -/
theorem begins_unaryOver (D L : Lang Expr) : Begins expressionStarters (UnaryOver D L) := by
  rintro _ _ (⟨shown, -⟩ | first)
  · exact ⟨_, _, rfl, List.mem_append_left primaryStarters shown⟩
  · obtain ⟨t, us, rfl, mem⟩ := begins_call L first
    exact ⟨t, us, rfl, List.mem_cons_of_mem _ (List.mem_cons_of_mem _ mem)⟩

/-- A chain starts as its operands do. -/
theorem begins_chain {operators : List TokenType} {join : Expr → Token → Expr → Expr}
    {L : Lang Expr} (h : Begins types L) : Begins types (Chain operators join L) := by
  rintro _ _ ⟨first, -⟩
  exact begins_append (h first)

/-- Expressions start with a unary operator or as calls do. -/
theorem begins_assignment (D L L' : Lang Expr) :
    Begins expressionStarters (Assignment (UnaryOver D L) L') := by
  rintro _ _ (⟨shown, -, -⟩ | ⟨object, -, -, -, -⟩ | phrase)
  · exact ⟨_, _, rfl, by rw [shown]; decide⟩
  · exact begins_append (begins_unaryOver Nothing _ (.call object))
  · exact begins_chain (begins_chain (begins_chain (begins_chain (begins_chain (begins_chain
      (begins_unaryOver D L)))))) phrase

/-- Expressions start with a unary operator or as calls do. -/
theorem begins_expression : ∀ n, Begins expressionStarters (Expression n)
  | 0 => fun _ _ h => h.elim
  | n + 1 => by
    rw [Expression, unary_eq]
    exact begins_assignment ..

/-! ## Names and properties -/

/-- Whether an expression is made by a binary operator. -/
def isOperation : Expr → Bool
  | .binary .. | .logical .. => true
  | _ => false

/-- Operations leave what they start with, or they make an operation. -/
theorem operations_eq {operators : List TokenType} {join : Expr → Token → Expr → Expr}
    {L : Lang Expr} (joins : ∀ l o r, isOperation (join l o r) = true) {left e : Expr}
    {ts : List Token} (h : Operations operators join L left ts e) :
    (ts = [] ∧ e = left) ∨ isOperation e = true := by
  induction h with
  | nil e => exact .inl ⟨rfl, rfl⟩
  | cons _ _ _ ih =>
    rcases ih with ⟨-, rfl⟩ | made
    · exact .inr (joins _ _ _)
    · exact .inr made

/-- A chain that makes no operation is one of its operands. -/
theorem operand_of_chain {operators : List TokenType} {join : Expr → Token → Expr → Expr}
    {L : Lang Expr} (joins : ∀ l o r, isOperation (join l o r) = true) {e : Expr}
    {ts : List Token} (h : Chain operators join L ts e) (other : isOperation e = false) :
    L ts e := by
  obtain ⟨first, ops⟩ := h
  rcases operations_eq joins ops with ⟨rfl, rfl⟩ | made
  · simpa using first
  · rw [made] at other
    cases other

/-- An operand is a chain. -/
theorem chain_of_operand {operators : List TokenType} {join : Expr → Token → Expr → Expr}
    {L : Lang Expr} {e : Expr} {ts : List Token} (h : L ts e) : Chain operators join L ts e := by
  simpa using Chain.mk h (.nil e)

/-- An operand is an expression of every tier. -/
theorem logicOr_of_operand {L : Lang Expr} {e : Expr} {ts : List Token} (h : L ts e) :
    LogicOr L ts e :=
  chain_of_operand (chain_of_operand (chain_of_operand (chain_of_operand (chain_of_operand
    (chain_of_operand h)))))

/-- An expression that is made neither by an operator nor by an assignment is a call. -/
theorem call_of_logicOr {D L : Lang Expr} {e : Expr} {ts : List Token}
    (h : LogicOr (UnaryOver D L) ts e) (other : isOperation e = false)
    (plain : ∀ o r, e ≠ .unary o r) : Call L ts e := by
  have joins : ∀ l o r, isOperation (.binary l o r) = true := fun _ _ _ => rfl
  have joins' : ∀ l o r, isOperation (.logical l o r) = true := fun _ _ _ => rfl
  have operand : UnaryOver D L ts e :=
    operand_of_chain joins (operand_of_chain joins (operand_of_chain joins (operand_of_chain joins
      (operand_of_chain joins' (operand_of_chain joins' h other) other) other) other) other) other
  cases operand with
  | operator => exact absurd rfl (plain _ _)
  | call h => exact h

/-- Trailers leave what they start with, or the last of them is a call or a property. -/
theorem trailers_split {L : Lang Expr} {e e' : Expr} {ts : List Token} (h : Trailers L e ts e') :
    (ts = [] ∧ e' = e) ∨ (∃ callee right args, e' = .call callee right args) ∨
      ∃ us dot name object, ts = us ++ [dot, name] ∧ dot.type = .dot ∧ name.type = .identifier ∧
        e' = .get object name ∧ Trailers L e us object := by
  induction h with
  | nil e => exact .inl ⟨rfl, rfl⟩
  | @call callee e left right ts us args isLeft phrase isRight more ih =>
    rcases ih with ⟨-, rfl⟩ | made | ⟨vs, dot, name, object, rfl, isDot, isName, rfl, before⟩
    · exact .inr (.inl ⟨_, _, _, rfl⟩)
    · exact .inr (.inl made)
    · exact .inr (.inr ⟨left :: (ts ++ right :: vs), dot, name, object, by simp, isDot, isName, rfl,
        .call isLeft phrase isRight before⟩)
  | @get object e dot name ts isDot isName more ih =>
    rcases ih with ⟨rfl, rfl⟩ | made | ⟨vs, dot', name', object', rfl, isDot', isName', rfl, before⟩
    · exact .inr (.inr ⟨[], dot, name, object, rfl, isDot, isName, rfl, .nil _⟩)
    · exact .inr (.inl made)
    · exact .inr (.inr ⟨dot :: name :: vs, dot', name', object', rfl, isDot', isName', rfl,
        .get isDot isName before⟩)

/-- A property after trailers is one more of them. -/
theorem trailers_get {L : Lang Expr} {e object : Expr} {ts : List Token} {dot name : Token}
    (h : Trailers L e ts object) (isDot : dot.type = .dot) (isName : name.type = .identifier) :
    Trailers L e (ts ++ [dot, name]) (.get object name) := by
  induction h with
  | nil e => exact .get isDot isName (.nil _)
  | call isLeft phrase isRight _ ih => simpa using Trailers.call isLeft phrase isRight ih
  | get isDot' isName' _ ih => exact .get isDot' isName' ih

/-- A call after trailers is one more of them. -/
theorem trailers_call {L : Lang Expr} {e callee : Expr} {ts us : List Token} {left right : Token}
    {args : List Expr} (h : Trailers L e ts callee) (isLeft : left.type = .leftParen)
    (phrase : Listed L us args) (isRight : right.type = .rightParen) :
    Trailers L e (ts ++ left :: (us ++ [right])) (.call callee right args) := by
  induction h with
  | nil e => exact .call isLeft phrase isRight (.nil _)
  | call isLeft' phrase' isRight' _ ih => simpa using Trailers.call isLeft' phrase' isRight' ih
  | get isDot isName _ ih => exact .get isDot isName ih

/-- A property of an object is a call if the object is. -/
theorem call_get {L : Lang Expr} {object : Expr} {ts : List Token} {dot name : Token}
    (h : Call L ts object) (isDot : dot.type = .dot) (isName : name.type = .identifier) :
    Call L (ts ++ [dot, name]) (.get object name) := by
  obtain ⟨first, more⟩ := h
  rw [List.append_assoc]
  exact .mk first (trailers_get more isDot isName)

/-- The only phrase for a name is the name. -/
theorem eq_of_named {L : Lang Expr} {ts : List Token} {name : Token}
    (h : Call L ts (.named name)) : ts = [name] ∧ name.type = .identifier := by
  obtain ⟨first, more⟩ := h
  rcases trailers_split more with ⟨rfl, rfl⟩ | ⟨_, _, _, made⟩ | ⟨_, _, _, _, _, _, _, made, _⟩
  · cases first with
    | named shown => exact ⟨rfl, shown⟩
  · cases made
  · cases made

/-- A phrase for a property ends with a point and the name, after the object. -/
theorem split_of_get {L : Lang Expr} {ts : List Token} {object : Expr} {name : Token}
    (h : Call L ts (.get object name)) :
    ∃ us dot, ts = us ++ [dot, name] ∧ dot.type = .dot ∧ name.type = .identifier ∧
      Call L us object := by
  obtain ⟨first, more⟩ := h
  rcases trailers_split more with ⟨-, rfl⟩ | ⟨_, _, _, made⟩ |
    ⟨us, dot, _, _, rfl, isDot, isName, made, before⟩
  · cases first
  · cases made
  · cases made
    exact ⟨_, dot, (List.append_assoc ..).symm, isDot, isName, .mk first before⟩

end Lox.Grammar
