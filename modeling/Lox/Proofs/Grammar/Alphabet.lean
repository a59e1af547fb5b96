import Lox.Proofs.Grammar.Phrase

/-!
# The tokens of an expression

Expressions are made of some types of tokens only: there are no braces in them, no semicolons and no
keywords of statements. What holds of rows without these holds of every expression, with no look at
how it is made.
-/

namespace Lox.Grammar

variable {α : Type} {types : List TokenType}

/-- The phrases of a language are made of tokens of some types. -/
def Over (types : List TokenType) (L : Lang α) : Prop := ∀ ⦃ts a⦄, L ts a → ∀ t ∈ ts, t.type ∈ types

/-- The types of tokens that an expression is made of. -/
def expressionTypes : List TokenType :=
  [.leftParen, .rightParen, .comma, .dot, .minus, .plus, .slash, .star, .bang, .bangEqual, .equal,
   .equalEqual, .greater, .greaterEqual, .less, .lessEqual, .identifier, .string, .number, .andKw,
   .falseKw, .nilKw, .orKw, .superKw, .thisKw, .trueKw]

/-- A token of one of the types comes in front of a row of them. -/
theorem forall_cons {t : Token} {ts : List Token} {type : TokenType} (shown : t.type = type)
    (mem : type ∈ types) (rest : ∀ t ∈ ts, t.type ∈ types) : ∀ u ∈ t :: ts, u.type ∈ types :=
  List.forall_mem_cons.2 ⟨shown ▸ mem, rest⟩

/-- A single token of one of the types. -/
theorem forall_singleton {t : Token} {type : TokenType} (shown : t.type = type)
    (mem : type ∈ types) : ∀ u ∈ [t], u.type ∈ types :=
  forall_cons shown mem (List.forall_mem_nil _)

/-! ## Rows -/

/-- There are no phrases to look at. -/
theorem over_nothing : Over types (Nothing : Lang α) := fun _ _ h => h.elim

/-- A phrase that may be left out. -/
theorem over_maybe {L : Lang α} (h : Over types L) : Over types (Maybe L) := by
  rintro _ _ (_ | phrase)
  · exact List.forall_mem_nil _
  · exact h phrase

/-- Phrases with commas between them. -/
theorem over_listed {L : Lang α} (h : Over types L) (mem : .comma ∈ types) :
    Over types (Listed L) := by
  have further : Over types (Further L) := by
    intro ts as phrase
    induction phrase with
    | nil => exact List.forall_mem_nil _
    | comma isComma => exact forall_singleton isComma mem
    | cons isComma phrase _ ih =>
      exact forall_cons isComma mem (List.forall_mem_append.2 ⟨h phrase, ih⟩)
  rintro _ _ (_ | ⟨phrase, more⟩)
  · exact List.forall_mem_nil _
  · exact List.forall_mem_append.2 ⟨h phrase, further more⟩

/-- A single token. -/
theorem over_terminal {type : TokenType} (mem : type ∈ types) : Over types (Terminal type) := by
  rintro _ _ ⟨shown⟩
  exact forall_singleton shown mem

/-! ## Expressions -/

/-- The tokens of a call. -/
theorem over_call {L : Lang Expr} (h : Over expressionTypes L) : Over expressionTypes (Call L) := by
  -- What the call starts with, and what trails it.
  have first : Over expressionTypes (Primary L) := by
    intro ts e phrase
    cases phrase with
    | false shown | true shown | nil shown | number shown | string shown | this shown
    | named shown => exact forall_singleton shown (by decide)
    | super shown isDot isName =>
      exact forall_cons shown (by decide)
        (forall_cons isDot (by decide) (forall_singleton isName (by decide)))
    | grouping isLeft phrase isRight =>
      exact forall_cons isLeft (by decide)
        (List.forall_mem_append.2 ⟨h phrase, forall_singleton isRight (by decide)⟩)
  have more : ∀ e, Over expressionTypes (Trailers L e) := by
    intro e ts e' phrase
    induction phrase with
    | nil => exact List.forall_mem_nil _
    | call isLeft phrase isRight _ ih =>
      exact forall_cons isLeft (by decide) (List.forall_mem_append.2
        ⟨over_listed h (by decide) phrase, forall_cons isRight (by decide) ih⟩)
    | get isDot isName _ ih =>
      exact forall_cons isDot (by decide) (forall_cons isName (by decide) ih)
  rintro _ _ ⟨phrase, trailers⟩
  exact List.forall_mem_append.2 ⟨first phrase, more _ trailers⟩

/-- The tokens of an operand. -/
theorem over_unaryOver {D L : Lang Expr} (hd : Over expressionTypes D)
    (h : Over expressionTypes L) : Over expressionTypes (UnaryOver D L) := by
  have operators : ∀ type ∈ [TokenType.bang, .minus], type ∈ expressionTypes := by decide
  rintro _ _ (⟨mem, phrase⟩ | phrase)
  · exact forall_cons rfl (operators _ mem) (hd phrase)
  · exact over_call h phrase

/-- The tokens of a chain of operands. -/
theorem over_chain {operators : List TokenType} {join : Expr → Token → Expr → Expr} {L : Lang Expr}
    (h : Over types L) (le : ∀ type ∈ operators, type ∈ types) :
    Over types (Chain operators join L) := by
  rintro _ _ ⟨first, more⟩
  refine List.forall_mem_append.2 ⟨h first, ?_⟩
  clear first
  induction more with
  | nil => exact List.forall_mem_nil _
  | cons mem phrase _ ih =>
    exact forall_cons rfl (le _ mem) (List.forall_mem_append.2 ⟨h phrase, ih⟩)

/-- The tokens of an expression that is made of others. -/
theorem over_assignment {U L : Lang Expr} (hu : Over expressionTypes U)
    (h : Over expressionTypes L) : Over expressionTypes (Assignment U L) := by
  rintro _ _ (⟨isName, isEquals, phrase⟩ | ⟨object, isDot, isName, isEquals, phrase⟩ | phrase)
  · exact forall_cons isName (by decide) (forall_cons isEquals (by decide) (h phrase))
  · exact List.forall_mem_append.2 ⟨over_call h object,
      forall_cons isDot (by decide)
        (forall_cons isName (by decide) (forall_cons isEquals (by decide) (h phrase)))⟩
  · have factor : Over expressionTypes (Factor U) := over_chain hu (by decide)
    have term : Over expressionTypes (Term U) := over_chain factor (by decide)
    have comparison : Over expressionTypes (Comparison U) := over_chain term (by decide)
    have equality : Over expressionTypes (Equality U) := over_chain comparison (by decide)
    have logicAnd : Over expressionTypes (LogicAnd U) := over_chain equality (by decide)
    have logicOr : Over expressionTypes (LogicOr U) := over_chain logicAnd (by decide)
    exact logicOr phrase

/-- At every level operands and expressions are made of the same types of tokens. -/
theorem over_levels (n : Nat) :
    Over expressionTypes (Unary n) ∧ Over expressionTypes (Expression n) := by
  induction n with
  | zero => exact ⟨over_unaryOver over_nothing over_nothing, over_nothing⟩
  | succ n ih =>
    obtain ⟨operands, expressions⟩ := ih
    have assignments := over_assignment operands expressions
    exact ⟨over_unaryOver operands assignments, assignments⟩

/-- The tokens of an expression. -/
theorem over_expression (n : Nat) : Over expressionTypes (Expression n) := (over_levels n).2

/-! ## Clauses of statements -/

/-- The types of tokens that a clause of a statement is made of, its semicolon included. -/
def clauseTypes : List TokenType := .semicolon :: .varKw :: expressionTypes

section Clauses

variable {expression : Lang Expr}

/-- The tokens of an expression may stand in a clause. -/
theorem over_clause (h : Over expressionTypes expression) : Over clauseTypes expression :=
  fun _ _ phrase t mem => List.mem_cons_of_mem _ (List.mem_cons_of_mem _ (h phrase t mem))

/-- The tokens of an expression statement. -/
theorem over_expressionStatement (h : Over expressionTypes expression) :
    Over clauseTypes (ExpressionStatement expression) := by
  rintro _ _ ⟨phrase, isSemicolon⟩
  exact List.forall_mem_append.2 ⟨over_clause h phrase, forall_singleton isSemicolon (by decide)⟩

/-- The tokens of a variable declaration. -/
theorem over_varDeclaration (h : Over expressionTypes expression) :
    Over clauseTypes (VarDeclaration expression) := by
  have value : Over clauseTypes (Initializer expression) := by
    rintro _ _ ⟨isEquals, phrase⟩
    exact forall_cons isEquals (by decide) (over_clause h phrase)
  rintro _ _ ⟨isVar, isName, initializer, isSemicolon⟩
  exact forall_cons isVar (by decide) (forall_cons isName (by decide) (List.forall_mem_append.2
    ⟨over_maybe value initializer, forall_singleton isSemicolon (by decide)⟩))

/-- The tokens of the first clause of a `for` loop. -/
theorem over_forInitializer (h : Over expressionTypes expression) :
    Over clauseTypes (ForInitializer expression) := by
  rintro _ _ (isSemicolon | phrase | phrase)
  · exact forall_singleton isSemicolon (by decide)
  · exact over_varDeclaration h phrase
  · exact over_expressionStatement h phrase

end Clauses

end Lox.Grammar
