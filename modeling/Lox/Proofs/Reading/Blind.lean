import Lox.Proofs.Rule.Blind
import Lox.Rule.Statement

/-!
# Reading does not look at lines

No rule for expressions, statements and declarations looks at lines if the rules for its parts do
not. Where a rule puts a node together from values that it has read, removing the lines from the
node is removing them from the values.
-/

namespace Lox.Rule

/-! ## Expressions -/

section Expressions

variable {operand deeper expression : Rule Expr}

/-- Chains of some tiers, whose nodes take the lines of their parts. -/
theorem blind_ladder {rungs : List Tier}
    (joins : ∀ tier ∈ rungs, ∀ left operator right,
      tier.join left.erased operator.erased right.erased = (tier.join left operator right).erased)
    (h : Blind Expr.erased operand operand) :
    Blind Expr.erased (ladder rungs operand) (ladder rungs operand) := by
  induction rungs with
  | nil => exact h
  | cons tier tighter ih =>
    obtain ⟨join, others⟩ := List.forall_mem_cons.1 joins
    refine (ih others).bind fun left => Blind.loop (fun left => ?_) left
    refine (blind_accept tier.operators).bind fun found => ?_
    cases found with
    | none => exact .pure rfl
    | some operator => exact (ih others).bind fun right => .pure (congrArg some (join ..))

/-- The nodes of binary operators take the lines of their parts. -/
theorem join_erased : ∀ tier ∈ tiers, ∀ left operator right,
    tier.join left.erased operator.erased right.erased =
      (tier.join left operator right).erased := by
  simp [tiers, Expr.erased]

/-- A list of arguments. -/
theorem blind_arguments (h : Blind Expr.erased expression expression) :
    Blind (List.map Expr.erased) (arguments expression) (arguments expression) := by
  refine (blind_comes .rightParen).bind fun closed => ?_
  rw [id]
  split
  · exact .pure rfl
  · refine h.bind fun e => Blind.map (Blind.loop (fun done => ?_) [e]) fun _ =>
      List.map_reverse.symm
    refine (blind_accept [.comma]).bind fun found => ?_
    cases found with
    | none => exact .pure rfl
    | some comma =>
      refine (blind_comes .rightParen).bind fun closed => ?_
      rw [id]
      split
      · exact .pure rfl
      · exact h.bind fun e => .pure rfl

/-- Trailers. -/
theorem blind_trailers (h : Blind Expr.erased expression expression) (e : Expr) :
    Blind Expr.erased (trailers expression e) (trailers expression e.erased) := by
  refine Blind.loop (fun e => ?_) e
  refine blind_peek.bind fun t => ?_
  rw [Token.erased_type]
  -- The arms depend on the expression so far, so the cases are split on both sides.
  cases t.type with
  | leftParen =>
    refine blind_read.bind fun _ => (blind_arguments h).bind fun args =>
      (blind_expect _ _).bind fun paren => .pure ?_
    rw [Option.map_some, Expr.erased, Expr.erasedAll_eq_map]
  | dot => exact blind_read.bind fun _ => (blind_expect _ _).bind fun name => .pure rfl
  | _ => exact .pure rfl

/-- A primary expression. -/
theorem blind_primary (h : Blind Expr.erased expression expression) :
    Blind Expr.erased (primary expression) (primary expression) := by
  refine blind_peek.bind fun t => ?_
  rw [Token.erased_type]
  split
  iterate 6 exact blind_read.bind fun t => .pure rfl
  · exact blind_read.bind fun keyword => (blind_expect _ _).bind fun _ =>
      (blind_expect _ _).bind fun method => .pure rfl
  · exact blind_read.bind fun t => .pure rfl
  · exact blind_read.bind fun _ => h.bind fun inner => (blind_expect _ _).bind fun _ => .pure rfl
  · exact blind_fail _

/-- An operand of binary operators. -/
theorem blind_unaryOver (hd : Blind Expr.erased deeper deeper)
    (h : Blind Expr.erased expression expression) :
    Blind Expr.erased (unaryOver deeper expression) (unaryOver deeper expression) := by
  refine (blind_accept unaryOperators).bind fun found => ?_
  cases found with
  | none => exact (blind_primary h).bind fun e => blind_trailers h e
  | some operator => exact hd.bind fun right => .pure rfl

/-- An assignment. -/
theorem blind_assignment (ho : Blind Expr.erased operand operand)
    (h : Blind Expr.erased expression expression) :
    Blind Expr.erased (assignment operand expression) (assignment operand expression) := by
  refine (blind_ladder join_erased ho).bind fun target => ?_
  refine (blind_accept [.equal]).bind fun found => ?_
  cases found with
  | none => exact .pure rfl
  | some equals =>
    refine h.bind fun value => ?_
    -- What the target is does not show in its lines, so both assign or both blame the equals sign.
    cases target with
    | named name => exact .pure rfl
    | get object name => exact .pure rfl
    | _ => exact blind_blame _ equals

end Expressions

/-- At every level operands and expressions do not look at lines. -/
theorem blind_levels (limit : Int) (n : Nat) :
    Blind Expr.erased (unary limit n) (unary limit n) ∧
      Blind Expr.erased (expression limit n) (expression limit n) := by
  induction n with
  | zero => exact ⟨blind_unaryOver (blind_fail _) (blind_fail _), blind_fail _⟩
  | succ n ih =>
    obtain ⟨operands, expressions⟩ := ih
    have assignments := blind_assignment operands expressions
    exact ⟨blind_unaryOver operands assignments, assignments⟩

/-! ## Statements -/

section Statements

variable {expression : Rule Expr} {statement declaration : Rule Stmt} {body : Rule (List Stmt)}

/-- An expression statement. -/
theorem blind_expressionStatement (h : Blind Expr.erased expression expression) :
    Blind Stmt.erased (expressionStatement expression) (expressionStatement expression) :=
  h.bind fun _ => (blind_expect _ _).bind fun _ => .pure rfl

/-- A variable declaration. -/
theorem blind_varDeclaration (h : Blind Expr.erased expression expression) :
    Blind Stmt.erased (varDeclaration expression) (varDeclaration expression) := by
  refine (blind_expect _ _).bind fun name => (blind_accept [.equal]).bind fun found => ?_
  cases found with
  | none =>
    have left : Blind (Option.map Expr.erased) (pure none) (pure none) := .pure rfl
    exact left.bind fun value => (blind_expect _ _).bind fun _ => .pure rfl
  | some equals =>
    have value : Blind (Option.map Expr.erased) (some <$> expression) (some <$> expression) :=
      h.map fun _ => rfl
    exact value.bind fun value => (blind_expect _ _).bind fun _ => .pure rfl

/-- An expression that may be left out. -/
theorem blind_optionalUntil (type : TokenType) (h : Blind Expr.erased expression expression) :
    Blind (Option.map Expr.erased) (optionalUntil type expression)
      (optionalUntil type expression) := by
  refine (blind_comes type).bind fun ends => ?_
  rw [id]
  split
  · exact .pure rfl
  · exact h.map fun _ => rfl

/-- The first clause of a `for` loop. -/
theorem blind_forInitializer (h : Blind Expr.erased expression expression) :
    Blind (Option.map Stmt.erased) (forInitializer expression) (forInitializer expression) := by
  refine blind_peek.bind fun t => ?_
  rw [Token.erased_type]
  split
  · exact blind_read.bind fun _ => .pure rfl
  · exact blind_read.bind fun _ => (blind_varDeclaration h).map fun _ => rfl
  · exact (blind_expressionStatement h).map fun _ => rfl

/-- The loop that a `for` loop stands for takes the lines of the parts. -/
theorem forLoop_erased (initializer : Option Stmt) (condition increment : Option Expr)
    (body : Stmt) :
    Stmt.forLoop (initializer.map Stmt.erased) (condition.map Expr.erased)
      (increment.map Expr.erased) body.erased =
      (Stmt.forLoop initializer condition increment body).erased := by
  cases initializer <;> cases condition <;> cases increment <;> rfl

/-- A `for` loop. -/
theorem blind_forStatement (h : Blind Expr.erased expression expression)
    (hs : Blind Stmt.erased statement statement) :
    Blind Stmt.erased (forStatement expression statement) (forStatement expression statement) :=
  (blind_expect _ _).bind fun _ => (blind_forInitializer h).bind fun _ =>
    (blind_optionalUntil _ h).bind fun _ => (blind_expect _ _).bind fun _ =>
    (blind_optionalUntil _ h).bind fun _ => (blind_expect _ _).bind fun _ =>
    hs.bind fun _ => .pure (forLoop_erased ..)

/-- An `if` statement. -/
theorem blind_ifStatement (h : Blind Expr.erased expression expression)
    (hs : Blind Stmt.erased statement statement) :
    Blind Stmt.erased (ifStatement expression statement) (ifStatement expression statement) := by
  refine (blind_expect _ _).bind fun _ => h.bind fun condition => (blind_expect _ _).bind fun _ =>
    hs.bind fun thenBranch => (blind_accept [.elseKw]).bind fun found => ?_
  cases found with
  | none => exact .pure rfl
  | some keyword => exact hs.bind fun elseBranch => .pure rfl

/-- A `print` statement. -/
theorem blind_printStatement (h : Blind Expr.erased expression expression) :
    Blind Stmt.erased (printStatement expression) (printStatement expression) :=
  h.bind fun _ => (blind_expect _ _).bind fun _ => .pure rfl

/-- A `return` statement. -/
theorem blind_returnStatement (keyword : Token) (h : Blind Expr.erased expression expression) :
    Blind Stmt.erased (returnStatement keyword expression)
      (returnStatement keyword.erased expression) :=
  (blind_optionalUntil _ h).bind fun _ => (blind_expect _ _).bind fun _ => .pure rfl

/-- A `while` loop. -/
theorem blind_whileStatement (h : Blind Expr.erased expression expression)
    (hs : Blind Stmt.erased statement statement) :
    Blind Stmt.erased (whileStatement expression statement) (whileStatement expression statement) :=
  (blind_expect _ _).bind fun _ => h.bind fun _ => (blind_expect _ _).bind fun _ =>
    hs.bind fun _ => .pure rfl

/-- A row between braces. -/
theorem blind_braced {α : Type} {view : α → α} {item : Rule α} (h : Blind view item item)
    (message : String) : Blind (List.map view) (braced item message) (braced item message) := by
  have row : Blind (List.map view) (items item) (items item) := by
    refine Blind.map (Blind.loop (fun done => ?_) []) fun _ => List.map_reverse.symm
    refine blind_peek.bind fun t => ?_
    have same : t.erased.isEof = t.isEof := rfl
    rw [Token.erased_type, same]
    split
    · exact .pure rfl
    · exact h.bind fun a => .pure rfl
  exact row.bind fun all => (blind_expect _ _).bind fun _ => .pure rfl

/-- A list of parameters. -/
theorem blind_parameters : Blind (List.map Token.erased) parameters parameters := by
  refine (blind_accept [.identifier]).bind fun found => ?_
  cases found with
  | none => exact .pure rfl
  | some name =>
    refine Blind.map (Blind.loop (fun done => ?_) [name]) fun _ => List.map_reverse.symm
    refine (blind_accept [.comma]).bind fun found => ?_
    cases found with
    | none => exact .pure rfl
    | some comma =>
      refine (blind_accept [.identifier]).bind fun found => .pure ?_
      cases found <;> rfl

/-- A function. -/
theorem blind_function (role : String) (h : Blind (List.map Stmt.erased) body body) :
    Blind Function.erased (function role body) (function role body) :=
  (blind_expect _ _).bind fun _ => (blind_expect _ _).bind fun _ => blind_parameters.bind fun _ =>
    (blind_expect _ _).bind fun _ => (blind_expect _ _).bind fun _ => h.bind fun _ =>
    .pure (by rw [Function.erased, Stmt.erasedAll_eq_map])

/-- A class. -/
theorem blind_classDeclaration (h : Blind (List.map Stmt.erased) body body) :
    Blind Stmt.erased (classDeclaration body) (classDeclaration body) := by
  have parent : Blind (Option.map Token.erased) superclass superclass := by
    refine (blind_accept [.less]).bind fun found => ?_
    cases found with
    | none => exact .pure rfl
    | some less => exact (blind_expect _ _).map fun _ => rfl
  exact (blind_expect _ _).bind fun _ => parent.bind fun _ => (blind_expect _ _).bind fun _ =>
    (blind_braced (blind_function "method" h) _).bind fun _ =>
    .pure (by rw [Stmt.erased, Function.erasedAll_eq_map])

/-- A statement. -/
theorem blind_statementOver (h : Blind Expr.erased expression expression)
    (hs : Blind Stmt.erased statement statement)
    (hd : Blind Stmt.erased declaration declaration) :
    Blind Stmt.erased (statementOver expression statement declaration)
      (statementOver expression statement declaration) := by
  refine blind_peek.bind fun t => ?_
  rw [Token.erased_type]
  split
  · exact blind_read.bind fun _ => blind_forStatement h hs
  · exact blind_read.bind fun _ => blind_ifStatement h hs
  · exact blind_read.bind fun _ => blind_printStatement h
  · exact blind_read.bind fun keyword => blind_returnStatement keyword h
  · exact blind_read.bind fun _ => blind_whileStatement h hs
  · exact blind_read.bind fun _ => (blind_braced hd _).map fun _ => by
      rw [Stmt.erased, Stmt.erasedAll_eq_map]
  · exact blind_expressionStatement h

/-- A declaration. -/
theorem blind_declarationOver (h : Blind Expr.erased expression expression)
    (hb : Blind (List.map Stmt.erased) body body) (hs : Blind Stmt.erased statement statement) :
    Blind Stmt.erased (declarationOver expression body statement)
      (declarationOver expression body statement) := by
  refine blind_peek.bind fun t => ?_
  rw [Token.erased_type]
  split
  · exact blind_read.bind fun _ => blind_classDeclaration hb
  · exact blind_read.bind fun _ => (blind_function _ hb).map fun _ => rfl
  · exact blind_read.bind fun _ => blind_varDeclaration h
  · exact hs

end Statements

/-- At every level statements and declarations do not look at lines. -/
theorem blind_statements (limit : Int) (n : Nat) :
    Blind Stmt.erased (statement limit n) (statement limit n) ∧
      Blind Stmt.erased (declaration limit n) (declaration limit n) := by
  induction n with
  | zero => exact ⟨blind_fail _, blind_declarationOver (blind_fail _) (blind_fail _) (blind_fail _)⟩
  | succ n ih =>
    obtain ⟨statements, declarations⟩ := ih
    have statements' := blind_statementOver (blind_levels limit n).2 statements declarations
    exact ⟨statements', blind_declarationOver (blind_levels limit (n + 1)).2
      (blind_braced declarations _) statements'⟩

/-- A declaration with a limit on its levels does not look at lines. -/
theorem blind_declaration (limit : Int) (n : Nat) :
    Blind Stmt.erased (declaration limit n) (declaration limit n) :=
  (blind_statements limit n).2

end Lox.Rule
