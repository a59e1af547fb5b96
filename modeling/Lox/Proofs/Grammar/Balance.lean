import Lox.Proofs.Grammar.Alphabet
import Lox.Token.Window

/-!
# Balanced braces

Braces stand around blocks and classes only, so the phrases of the grammar close the braces that
they open: reading a phrase leaves as many braces open as there were.
-/

namespace Lox.Grammar

variable {α : Type}

/-- Tokens that close the braces which they open, and no others. -/
def Balanced (ts : List Token) : Prop := ∀ depth, ts.foldl Window.depthAfter depth = depth

/-- Every phrase of a language closes the braces which it opens. -/
def Closed (L : Lang α) : Prop := ∀ ⦃ts a⦄, L ts a → Balanced ts

/-- No tokens are balanced. -/
theorem balanced_nil : Balanced [] := fun _ => rfl

/-- Balanced tokens after each other are balanced. -/
theorem Balanced.append {ts us : List Token} (h : Balanced ts) (h' : Balanced us) :
    Balanced (ts ++ us) := fun depth => by rw [List.foldl_append, h, h']

/-- Whether a type is that of a brace. -/
def isBrace (type : TokenType) : Bool := type == .leftBrace || type == .rightBrace

/-- A token that is no brace does not matter. -/
theorem Balanced.cons {t : Token} {ts : List Token} {type : TokenType} (h : Balanced ts)
    (shown : t.type = type) (plain : isBrace type = false) : Balanced (t :: ts) := by
  intro depth
  have same : Window.depthAfter depth t = depth := by
    unfold Window.depthAfter
    split <;> simp_all [isBrace]
  rw [List.foldl_cons, same, h]

/-- Balanced tokens between braces are balanced. -/
theorem Balanced.braced {left right : Token} {ts : List Token} (h : Balanced ts)
    (isLeft : left.type = .leftBrace) (isRight : right.type = .rightBrace) :
    Balanced (left :: (ts ++ [right])) := by
  intro depth
  rw [List.foldl_cons, List.foldl_append, h]
  simp [Window.depthAfter, isLeft, isRight]

/-- A single token that is no brace is balanced. -/
theorem balanced_singleton {t : Token} {type : TokenType} (shown : t.type = type)
    (plain : isBrace type = false) : Balanced [t] :=
  balanced_nil.cons shown plain

/-! ## Rows -/

/-- There are no phrases that could open a brace. -/
theorem closed_nothing : Closed (Nothing : Lang α) := fun _ _ h => h.elim

/-- Rows of closed phrases are closed. -/
theorem closed_many {L : Lang α} (h : Closed L) : Closed (Many L) := by
  intro ts as phrase
  induction phrase with
  | nil => exact balanced_nil
  | cons phrase _ ih => exact (h phrase).append ih

/-- Phrases of tokens that are no braces are closed. -/
theorem closed_of_over {L : Lang α} {types : List TokenType}
    (plain : ∀ type ∈ types, isBrace type = false) (h : Over types L) : Closed L := by
  intro ts a phrase
  have mem := h phrase
  clear phrase
  induction ts with
  | nil => exact balanced_nil
  | cons t ts ih =>
    obtain ⟨first, rest⟩ := List.forall_mem_cons.1 mem
    exact (ih rest).cons rfl (plain _ first)

/-! ## Statements -/

section Statements

variable {expression : Lang Expr} {statement : Bool → Lang Stmt} {declaration : Lang Stmt}
  {body : Lang (List Stmt)}

/-- There are no braces in the clauses of a statement. -/
theorem closed_of_over_clause {L : Lang α} (h : Over clauseTypes L) : Closed L :=
  closed_of_over (by decide) h

/-- Blocks are closed, because their braces match. -/
theorem closed_block (h : Closed declaration) : Closed (Block declaration) := by
  rintro _ _ ⟨isLeft, phrase, isRight⟩
  exact (closed_many h phrase).braced isLeft isRight

/-- Statements are closed. -/
theorem closed_statementOver (h : Over expressionTypes expression)
    (hs : ∀ isOpen, Closed (statement isOpen)) (hd : Closed declaration) (isOpen : Bool) :
    Closed (StatementOver expression statement declaration isOpen) := by
  have he : Closed expression := closed_of_over_clause (over_clause h)
  have he' : Closed (Maybe expression) := closed_of_over_clause (over_maybe (over_clause h))
  intro ts s phrase
  cases phrase with
  | expression phrase => exact closed_of_over_clause (over_expressionStatement h) phrase
  | forLoop phrase =>
    obtain ⟨isFor, isLeft, first, condition, isSemicolon, increment, isRight, inner⟩ := phrase
    have initializer := closed_of_over_clause (over_forInitializer h) first
    exact (initializer.append ((he' condition).append (((he' increment).append
      ((hs _ inner).cons isRight rfl)).cons isSemicolon rfl))).cons isLeft rfl |>.cons isFor rfl
  | branch phrase =>
    cases phrase with
    | ifThen isIf isLeft condition isRight inner =>
      exact ((he condition).append ((hs _ inner).cons isRight rfl)).cons isLeft rfl |>.cons isIf rfl
    | ifElse isIf isLeft condition isRight inner isElse inner' =>
      exact ((he condition).append (((hs _ inner).append ((hs _ inner').cons isElse rfl)).cons
        isRight rfl)).cons isLeft rfl |>.cons isIf rfl
  | print phrase =>
    obtain ⟨isPrint, phrase, isSemicolon⟩ := phrase
    exact ((he phrase).append (balanced_singleton isSemicolon rfl)).cons isPrint rfl
  | returns phrase =>
    obtain ⟨isReturn, phrase, isSemicolon⟩ := phrase
    exact ((he' phrase).append (balanced_singleton isSemicolon rfl)).cons isReturn rfl
  | whileLoop phrase =>
    obtain ⟨isWhile, isLeft, condition, isRight, inner⟩ := phrase
    exact ((he condition).append ((hs _ inner).cons isRight rfl)).cons isLeft rfl
      |>.cons isWhile rfl
  | block phrase => exact closed_block hd phrase

/-- Functions are closed. There are no braces among their parameters. -/
theorem closed_functionOver (h : Closed body) : Closed (FunctionOver body) := by
  have list : Closed (Listed (Terminal .identifier)) :=
    closed_of_over_clause (over_listed (over_terminal (by decide)) (by decide))
  rintro _ _ ⟨isName, isLeft, params, isRight, phrase⟩
  exact (((list params).append ((h phrase).cons isRight rfl)).cons isLeft rfl).cons isName rfl

/-- Declarations are closed. -/
theorem closed_declarationOver (h : Over expressionTypes expression) (hb : Closed body)
    (hs : ∀ isOpen, Closed (statement isOpen)) :
    Closed (DeclarationOver expression body statement) := by
  have parent : Over clauseTypes Parent := by
    rintro _ _ ⟨isLess, isName⟩
    exact forall_cons isLess (by decide) (forall_singleton isName (by decide))
  intro ts s phrase
  cases phrase with
  | classDecl phrase =>
    obtain ⟨isClass, isName, superclass, isLeft, methods, isRight⟩ := phrase
    have first := closed_of_over_clause (over_maybe parent) superclass
    have inner := closed_many (closed_functionOver hb) methods
    exact ((first.append (inner.braced isLeft isRight)).cons isName rfl).cons isClass rfl
  | function isFun phrase => exact (closed_functionOver hb phrase).cons isFun rfl
  | varDecl phrase => exact closed_of_over_clause (over_varDeclaration h) phrase
  | statement phrase => exact hs _ phrase

end Statements

/-- At every level statements and declarations are closed. -/
theorem closed_statements (n : Nat) : (∀ isOpen, Closed (Statement n isOpen)) ∧
    Closed (Declaration n) := by
  induction n with
  | zero => exact ⟨fun _ => closed_nothing,
      closed_declarationOver over_nothing closed_nothing fun _ => closed_nothing⟩
  | succ n ih =>
    obtain ⟨statements, declarations⟩ := ih
    have statements' := closed_statementOver (over_expression n) statements declarations
    exact ⟨statements', closed_declarationOver (over_expression (n + 1))
      (closed_block declarations) statements'⟩

/-- A declaration leaves as many braces open as there were. -/
theorem closed_declaration (n : Nat) : Closed (Declaration n) := (closed_statements n).2

end Lox.Grammar
