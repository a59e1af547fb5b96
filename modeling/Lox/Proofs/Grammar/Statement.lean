import Lox.Proofs.Grammar.Expression

/-!
# Statements of the grammar

The first token of a phrase tells the statements from each other, and a statement or a declaration
from what may stand behind a row of them: a closing brace, an `else` or the end. The last token of a
declaration is a semicolon or a closing brace (`ends_declaration`), and it starts with neither.
-/

namespace Lox.Grammar

/-- The types of tokens that a statement starts with. -/
def statementStarters : List TokenType :=
  [.forKw, .ifKw, .printKw, .returnKw, .whileKw, .leftBrace] ++ expressionStarters

/-- The types of tokens that a declaration starts with. -/
def declarationStarters : List TokenType := [.classKw, .funKw, .varKw] ++ statementStarters

variable {expression : Lang Expr} {body : Lang (List Stmt)} {statement : Bool → Lang Stmt}
  {declaration : Lang Stmt}

/-- A single token in front decides what a phrase starts with. -/
theorem begins_cons {types : List TokenType} {t : Token} {ts : List Token} {type : TokenType}
    (shown : t.type = type) (mem : type ∈ types) : ∃ u us, t :: ts = u :: us ∧ u.type ∈ types :=
  ⟨t, ts, rfl, shown ▸ mem⟩

/-- An expression statement starts as its expression does. -/
theorem begins_expressionStatement {types : List TokenType} (h : Begins types expression) :
    Begins types (ExpressionStatement expression) := by
  rintro _ _ ⟨phrase, -⟩
  exact begins_append (h phrase)

/-- Statements start with a keyword, a brace or an expression. -/
theorem begins_statementOver (h : Begins expressionStarters expression) (isOpen : Bool) :
    Begins statementStarters (StatementOver expression statement declaration isOpen) := by
  intro ts s phrase
  cases phrase with
  | expression phrase =>
    obtain ⟨t, us, rfl, mem⟩ := begins_expressionStatement h phrase
    exact ⟨t, us, rfl, List.mem_append_right _ mem⟩
  | forLoop phrase =>
    obtain ⟨shown, -⟩ := phrase
    exact begins_cons shown (by decide)
  | branch phrase =>
    cases phrase with
    | ifThen shown | ifElse shown => exact begins_cons shown (by decide)
  | print phrase =>
    obtain ⟨shown, -⟩ := phrase
    exact begins_cons shown (by decide)
  | returns phrase =>
    obtain ⟨shown, -⟩ := phrase
    exact begins_cons shown (by decide)
  | whileLoop phrase =>
    obtain ⟨shown, -⟩ := phrase
    exact begins_cons shown (by decide)
  | block phrase =>
    obtain ⟨shown, -⟩ := phrase
    exact begins_cons shown (by decide)

/-- Declarations start with a keyword or as statements do. -/
theorem begins_declarationOver (h : ∀ isOpen, Begins statementStarters (statement isOpen)) :
    Begins declarationStarters (DeclarationOver expression body statement) := by
  intro ts s phrase
  cases phrase with
  | classDecl phrase =>
    obtain ⟨shown, -⟩ := phrase
    exact begins_cons shown (by decide)
  | function shown => exact begins_cons shown (by decide)
  | varDecl phrase =>
    obtain ⟨shown, -⟩ := phrase
    exact begins_cons shown (by decide)
  | statement phrase =>
    obtain ⟨t, us, rfl, mem⟩ := h _ phrase
    exact ⟨t, us, rfl, List.mem_append_right _ mem⟩

/-- Functions start with their name. -/
theorem begins_functionOver : Begins [.identifier] (FunctionOver body) := by
  rintro _ _ ⟨shown, -⟩
  exact begins_cons shown (by decide)

/-- Statements start with a keyword, a brace or an expression. -/
theorem begins_statement : ∀ n isOpen, Begins statementStarters (Statement n isOpen)
  | 0, _ => fun _ _ h => h.elim
  | n + 1, isOpen => by
    rw [Statement]
    exact begins_statementOver (begins_expression n) isOpen

/-- Declarations start with a keyword or as statements do. -/
theorem begins_declaration : ∀ n, Begins declarationStarters (Declaration n)
  | 0 => by
    rw [Declaration]
    exact begins_declarationOver fun _ _ _ h => h.elim
  | n + 1 => by
    rw [Declaration]
    exact begins_declarationOver (begins_statementOver (begins_expression n))

/-! ## Last tokens -/

/-- The types of tokens that a declaration ends with. -/
def enders : List TokenType := [.semicolon, .rightBrace]

/-- A row of tokens ends as a declaration can end. -/
def Ended (ts : List Token) : Prop := ∃ us t, ts = us ++ [t] ∧ t.type ∈ enders

/-- Every phrase of a language ends as a declaration can end. -/
def Ends {α : Type} (L : Lang α) : Prop := ∀ ⦃ts a⦄, L ts a → Ended ts

/-- A token behind the others decides how they end. -/
theorem ended_concat {t : Token} {type : TokenType} (ts : List Token) (shown : t.type = type)
    (mem : type ∈ enders) : Ended (ts ++ [t]) :=
  ⟨ts, t, rfl, shown ▸ mem⟩

/-- What stands in front of some tokens does not change how they end. -/
theorem Ended.append {ts us : List Token} (h : Ended us) : Ended (ts ++ us) := by
  obtain ⟨vs, t, rfl, mem⟩ := h
  exact ⟨ts ++ vs, t, (List.append_assoc ..).symm, mem⟩

/-- A token in front of others does not change how they end. -/
theorem Ended.cons {t : Token} {ts : List Token} (h : Ended ts) : Ended (t :: ts) :=
  show Ended ([t] ++ ts) from h.append

/-- A block ends with its brace. -/
theorem ends_block : Ends (Block declaration) := by
  rintro _ _ ⟨-, -, shown⟩
  exact ended_concat (_ :: _) shown (by decide)

/-- Statements end with a semicolon or a brace, or as the statements that they end with. -/
theorem ends_statementOver (h : ∀ isOpen, Ends (statement isOpen)) (isOpen : Bool) :
    Ends (StatementOver expression statement declaration isOpen) := by
  intro ts s phrase
  cases phrase with
  | expression phrase =>
    obtain ⟨-, shown⟩ := phrase
    exact ended_concat _ shown (by decide)
  | forLoop phrase =>
    obtain ⟨-, -, -, -, -, -, -, body⟩ := phrase
    exact (h _ body).cons.append.cons.append.append.cons.cons
  | branch phrase =>
    cases phrase with
    | ifThen _ _ _ _ body => exact (h _ body).cons.append.cons.cons
    | ifElse _ _ _ _ _ _ body => exact (h _ body).cons.append.cons.append.cons.cons
  | print phrase =>
    obtain ⟨-, -, shown⟩ := phrase
    exact ended_concat (_ :: _) shown (by decide)
  | returns phrase =>
    obtain ⟨-, -, shown⟩ := phrase
    exact ended_concat (_ :: _) shown (by decide)
  | whileLoop phrase =>
    obtain ⟨-, -, -, -, body⟩ := phrase
    exact (h _ body).cons.append.cons.cons
  | block phrase => exact ends_block phrase

/-- Declarations end with a semicolon or a brace, or as the bodies and statements in them. -/
theorem ends_declarationOver (h : Ends body) (h' : ∀ isOpen, Ends (statement isOpen)) :
    Ends (DeclarationOver expression body statement) := by
  intro ts s phrase
  cases phrase with
  | classDecl phrase =>
    obtain ⟨-, -, -, -, -, shown⟩ := phrase
    exact (ended_concat _ shown (by decide)).cons.append.cons.cons
  | function _ phrase =>
    obtain ⟨-, -, -, -, body⟩ := phrase
    exact (h body).cons.append.cons.cons.cons
  | varDecl phrase =>
    obtain ⟨-, -, -, shown⟩ := phrase
    exact ended_concat (_ :: _ :: _) shown (by decide)
  | statement phrase => exact h' _ phrase

/-- Statements end with a semicolon or a closing brace. -/
theorem ends_statement : ∀ n isOpen, Ends (Statement n isOpen)
  | 0, _ => fun _ _ h => h.elim
  | n + 1, isOpen => by
    rw [Statement]
    exact ends_statementOver (ends_statement n) isOpen

/-- Declarations end with a semicolon or a closing brace. -/
theorem ends_declaration : ∀ n, Ends (Declaration n)
  | 0 => by
    rw [Declaration]
    exact ends_declarationOver (fun _ _ h => h.elim) fun _ _ _ h => h.elim
  | n + 1 => by
    rw [Declaration]
    exact ends_declarationOver ends_block (ends_statementOver (ends_statement n))

/-- No declaration is one token over and over: it would start with a token that it ends with. -/
theorem exists_ne_of_declaration {n : Nat} {ts : List Token} {s : Stmt}
    (phrase : Declaration n ts s) (t : Token) : ∃ u ∈ ts, u ≠ t := by
  obtain ⟨first, more, begins, starts⟩ := begins_declaration n phrase
  obtain ⟨before, last, ended, ends⟩ := ends_declaration n phrase
  have apart : ∀ type ∈ enders, type ∉ declarationStarters := by decide
  by_cases same : first = t
  · refine ⟨last, by rw [ended]; simp, fun same' => apart _ ends ?_⟩
    rw [same', ← same]
    exact starts
  · exact ⟨first, by rw [begins]; simp, same⟩

end Lox.Grammar
