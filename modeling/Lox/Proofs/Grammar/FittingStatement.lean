import Lox.Proofs.Grammar.Fitting
import Lox.Proofs.Grammar.SpellingStatement

/-!
# The programs of a text

A declaration that is read from the tokens of a text is legible and has a shape in which no `else`
is taken by the wrong `if` (`ensures_declaration`). It may be nested deeper than the phrase that it
was read from: a `for` loop is one level of the grammar, but the loop that it stands for has up to
three levels, one for the block around it, one for itself and one for the block of its body. So
three levels for each are enough, and one if there are no `for` loops.
-/

namespace Lox

namespace Grammar

variable {c n : Nat}

/-- A declaration is as one that was read, with some levels below it. -/
structure FitsDeclaration (m : Nat) (s : Stmt) : Prop where
  /-- It needs no parentheses and no braces beside its own. -/
  shaped : s.Shaped
  /-- Its tokens can be read back. -/
  legible : s.Legible
  /-- It has no more levels than there are. -/
  nesting : s.nesting ≤ m

/-- A statement is as one that was read, and it has the mark that it was read with. -/
structure FitsStatement (m : Nat) (isOpen : Bool) (s : Stmt) : Prop where
  /-- It is as a declaration that was read. -/
  fits : FitsDeclaration m s
  /-- It may stand where declarations may not. -/
  plain : s.isDeclaration = false
  /-- If no `else` belongs to it, then none belongs to an `if` inside it. -/
  closed : isOpen = false → s.endsOpen = false

/-- A statement is a level. -/
theorem nesting_pos {s : Stmt} (plain : s.isDeclaration = false) : 0 < s.nesting := by
  cases s <;> simp_all [Stmt.isDeclaration, Stmt.nesting]

section Statements

variable {expression : Lang Expr} {statement : Bool → Lang Stmt} {declaration : Lang Stmt}
  {body : Lang (List Stmt)} {m : Nat}

/-- A statement that an `else` after it never belongs to. -/
theorem fits_closed {s : Stmt} (fits : FitsDeclaration m s) (plain : s.isDeclaration = false)
    (closed : s.endsOpen = false) (isOpen : Bool) : FitsStatement m isOpen s :=
  ⟨fits, plain, fun _ => closed⟩

/-- A block of some declarations is one level. -/
theorem fits_block {statements : List Stmt} (h : ∀ s ∈ statements, FitsDeclaration m s) :
    FitsDeclaration (m + 1) (.block statements) :=
  ⟨.block fun s mem => (h s mem).shaped, .block fun s mem => (h s mem).legible,
    Nat.succ_le_succ (Stmt.nestingAll_le.2 fun s mem => (h s mem).nesting)⟩

/-- A `while` loop is one level. -/
theorem fits_whileLoop {condition : Expr} {s : Stmt} {isOpen : Bool}
    (h : FitsInside m condition) (h' : FitsStatement m isOpen s) :
    FitsStatement (m + 1) isOpen (.whileLoop condition s) where
  fits := ⟨.whileLoop h.shaped h'.plain h'.fits.shaped, .whileLoop h.legible h'.fits.legible,
    Nat.succ_le_succ (Nat.max_le.2 ⟨h.nesting, h'.fits.nesting⟩)⟩
  plain := rfl
  closed := h'.closed

/-- More levels are enough, too. -/
theorem FitsInside.mono {m' : Nat} {e : Expr} (h : FitsInside m e) (le : m ≤ m') :
    FitsInside m' e :=
  ⟨h.shaped, h.legible, Nat.le_trans h.nesting le⟩

/-- More levels are enough, too. -/
theorem FitsDeclaration.mono {m' : Nat} {s : Stmt} (h : FitsDeclaration m s) (le : m ≤ m') :
    FitsDeclaration m' s :=
  ⟨h.shaped, h.legible, Nat.le_trans h.nesting le⟩

/-- More levels are enough, too. -/
theorem FitsStatement.mono {m' : Nat} {isOpen : Bool} {s : Stmt} (h : FitsStatement m isOpen s)
    (le : m ≤ m') : FitsStatement m' isOpen s :=
  ⟨h.fits.mono le, h.plain, h.closed⟩

/-- A statement that is an expression is two levels above those of the expression. -/
theorem fits_expression {e : Expr} (h : FitsInside m e) :
    FitsDeclaration (m + 1) (.expression e) :=
  ⟨.expression h.shaped, .expression h.legible, Nat.succ_le_succ h.nesting⟩

/-- The loop that a `for` loop stands for has three levels more than its body. -/
theorem fits_forLoop {initializer : Option Stmt} {condition increment : Option Expr} {s : Stmt}
    {isOpen : Bool} (first : ∀ t ∈ initializer, FitsDeclaration (m + 2) t)
    (test : ∀ e ∈ condition, FitsInside m e) (last : ∀ e ∈ increment, FitsInside (m - 1) e)
    (pos : 0 < m) (h : FitsStatement m isOpen s) :
    FitsStatement (m + 3) isOpen (.forLoop initializer condition increment s) := by
  -- The body with the increment, then the condition, and the loop of both.
  have turn : FitsStatement (m + 1) isOpen (s.withIncrement increment) := by
    cases increment with
    | none => exact h.mono (Nat.le_succ m)
    | some e =>
      have step : FitsDeclaration m (.expression e) :=
        (fits_expression (last e rfl)).mono (by omega)
      refine fits_closed (fits_block ?_) rfl rfl isOpen
      simp only [List.forall_mem_cons, List.not_mem_nil, false_implies, implies_true, and_true]
      exact ⟨h.fits, step⟩
  have test' : FitsInside (m + 1) (condition.getD (.literal (.bool true))) := by
    cases condition with
    | none => exact ⟨.literal _, .literal trivial, Nat.succ_le_succ (Nat.zero_le m)⟩
    | some e => exact (test e rfl).mono (Nat.le_succ m)
  have loop := fits_whileLoop test' turn
  cases initializer with
  | none => exact loop.mono (Nat.le_succ _)
  | some t =>
    refine fits_closed (fits_block ?_) rfl rfl isOpen
    simp only [List.forall_mem_cons, List.not_mem_nil, false_implies, implies_true, and_true]
    exact ⟨first t rfl, loop.fits⟩

/-- The declaration of a variable is no level by itself. -/
theorem ensures_varDeclaration (h : Ensures c (FitsInside m) expression) :
    Ensures c (FitsDeclaration m) (VarDeclaration expression) := by
  have initializers : Ensures c (FitsInside m) (Initializer expression) := by
    rintro _ _ allowed ⟨-, inner⟩
    rw [List.forall_mem_cons] at allowed
    exact h allowed.2 inner
  rintro _ _ allowed ⟨-, isName, inner, -⟩
  simp only [List.forall_mem_cons, List.forall_mem_append] at allowed
  obtain ⟨-, name, allowed, -⟩ := allowed
  obtain ⟨plain, word⟩ := name.1.name isName
  have fits := ensures_maybe initializers allowed inner
  refine ⟨.varDecl plain fun e mem => (fits e mem).shaped,
    .varDecl word fun e mem => (fits e mem).legible, ?_⟩
  rename_i initializer
  cases initializer with
  | none => exact Nat.zero_le m
  | some e => exact (fits e rfl).nesting

/-- An expression with a semicolon is a level. -/
theorem ensures_expressionStatement (h : Ensures c (FitsInside m) expression) :
    Ensures c (FitsDeclaration (m + 1)) (ExpressionStatement expression) := by
  rintro _ _ allowed ⟨inner, -⟩
  rw [List.forall_mem_append] at allowed
  exact fits_expression (h allowed.1 inner)

/-- What starts a `for` loop is a declaration or an expression with a semicolon. -/
theorem ensures_forInitializer (h : Ensures c (FitsInside m) expression) :
    Ensures c (fun first => ∀ s ∈ first, FitsDeclaration (m + 1) s)
      (ForInitializer expression) := by
  intro ts first allowed phrase
  cases phrase with
  | none => nofun
  | varDecl phrase =>
    rintro s ⟨⟩
    exact (ensures_varDeclaration h allowed phrase).mono (Nat.le_succ m)
  | expression phrase =>
    rintro s ⟨⟩
    exact ensures_expressionStatement h allowed phrase

/-- A block of declarations is as they are. -/
theorem ensures_block (h : Ensures c (FitsDeclaration m) declaration) :
    Ensures c (fun ss => ∀ s ∈ ss, FitsDeclaration m s) (Block declaration) := by
  rintro _ _ allowed ⟨-, inner, -⟩
  simp only [List.forall_mem_cons, List.forall_mem_append] at allowed
  exact ensures_many h allowed.2.1 inner

/-- An `if` is a level above its condition and its branches, and an `else` belongs to the nearest
one. -/
theorem ensures_ifStatement (h : Ensures c (FitsInside m) expression)
    (h' : ∀ isOpen, Ensures c (FitsStatement m isOpen) (statement isOpen)) (isOpen : Bool) :
    Ensures c (FitsStatement (m + 1) isOpen) (IfStatement expression statement isOpen) := by
  intro ts s allowed phrase
  cases phrase with
  | ifThen _ _ inner _ branch =>
    simp only [List.forall_mem_cons, List.forall_mem_append] at allowed
    obtain ⟨-, -, allowed, -, allowed'⟩ := allowed
    have test := h allowed inner
    have fits := h' _ allowed' branch
    exact ⟨⟨.ifThen test.shaped fits.plain fits.fits.shaped,
      .ifThen test.legible fits.fits.legible,
      Nat.succ_le_succ (Nat.max_le.2 ⟨test.nesting, fits.fits.nesting⟩)⟩, rfl, nofun⟩
  | ifElse _ _ inner _ branch _ branch' =>
    simp only [List.forall_mem_cons, List.forall_mem_append] at allowed
    obtain ⟨-, -, allowed, -, allowed', -, allowed''⟩ := allowed
    have test := h allowed inner
    have fits := h' _ allowed' branch
    have fits' := h' _ allowed'' branch'
    exact ⟨⟨.ifElse test.shaped fits.plain (fits.closed rfl) fits'.plain fits.fits.shaped
      fits'.fits.shaped, .ifElse test.legible fits.fits.legible fits'.fits.legible,
      Nat.succ_le_succ (Nat.max_le.2 ⟨test.nesting,
        Nat.max_le.2 ⟨fits.fits.nesting, fits'.fits.nesting⟩⟩)⟩, rfl, fits'.closed⟩

/-- A `for` loop is a level that costs three. -/
theorem ensures_forStatement (h : Ensures c (FitsInside n) expression)
    (h' : ∀ isOpen, Ensures c (FitsStatement (c * n) isOpen) (statement isOpen)) (isOpen : Bool) :
    Ensures c (FitsStatement (c * (n + 1)) isOpen) (ForStatement expression statement isOpen) := by
  rintro _ _ allowed ⟨isFor, -, first, test, -, last, -, inner⟩
  simp only [List.forall_mem_cons, List.forall_mem_append] at allowed
  obtain ⟨keyword, -, inFirst, inTest, -, inLast, -, inBody⟩ := allowed
  have three : 3 ≤ c := keyword.2 isFor
  have body := h' _ inBody inner
  -- The body is a statement, so there is a level for it, and the levels of the clauses are fewer.
  have pos : 0 < c * n := Nat.lt_of_lt_of_le (nesting_pos body.plain) body.fits.nesting
  have some : 0 < n := Nat.pos_of_mul_pos_left pos
  have enough : 3 * n ≤ c * n := Nat.mul_le_mul_right n three
  have initializer := ensures_forInitializer h inFirst first
  have condition := ensures_maybe h inTest test
  have increment := ensures_maybe h inLast last
  refine (fits_forLoop (fun s mem => (initializer s mem).mono ?_)
    (fun e mem => (condition e mem).mono ?_) (fun e mem => (increment e mem).mono ?_) pos
    body).mono ?_
  · omega
  · omega
  · omega
  · rw [Nat.mul_succ]
    omega

/-- A `while` loop is a level above its condition and its body. -/
theorem ensures_whileStatement (h : Ensures c (FitsInside m) expression)
    (h' : ∀ isOpen, Ensures c (FitsStatement m isOpen) (statement isOpen)) (isOpen : Bool) :
    Ensures c (FitsStatement (m + 1) isOpen) (WhileStatement expression statement isOpen) := by
  rintro _ _ allowed ⟨-, -, test, -, inner⟩
  simp only [List.forall_mem_cons, List.forall_mem_append] at allowed
  obtain ⟨-, -, allowed, -, allowed'⟩ := allowed
  exact fits_whileLoop (h allowed test) (h' _ allowed' inner)

/-- Printing is two levels above those of its expression. -/
theorem ensures_printStatement (h : Ensures c (FitsInside m) expression) :
    Ensures c (FitsDeclaration (m + 1)) (PrintStatement expression) := by
  rintro _ _ allowed ⟨-, inner, -⟩
  simp only [List.forall_mem_cons, List.forall_mem_append] at allowed
  have fits := h allowed.2.1 inner
  exact ⟨.print fits.shaped, .print fits.legible, Nat.succ_le_succ fits.nesting⟩

/-- Returning is a level above its expression. -/
theorem ensures_returnStatement (h : Ensures c (FitsInside m) expression) :
    Ensures c (FitsDeclaration (m + 1)) (ReturnStatement expression) := by
  intro ts s allowed phrase
  cases phrase with
  | @mk keyword semicolon ts value isReturn inner _ =>
    simp only [List.forall_mem_cons, List.forall_mem_append] at allowed
    obtain ⟨first, allowed, -⟩ := allowed
    have fits := ensures_maybe h allowed inner
    refine ⟨.returns (isSign_of_allowed first isReturn) fun e mem => (fits e mem).shaped,
      .returns fun e mem => (fits e mem).legible, Nat.succ_le_succ ?_⟩
    cases value with
    | none => exact Nat.zero_le m
    | some e => exact (fits e rfl).nesting

/-- A statement is a level. -/
theorem ensures_statementOver (one : 1 ≤ c) (h : Ensures c (FitsInside n) expression)
    (h' : ∀ isOpen, Ensures c (FitsStatement (c * n) isOpen) (statement isOpen))
    (h'' : Ensures c (FitsDeclaration (c * n)) declaration) (isOpen : Bool) :
    Ensures c (FitsStatement (c * (n + 1)) isOpen)
      (StatementOver expression statement declaration isOpen) := by
  -- A level of the phrase gives room for as many levels of the tree as a `for` loop may need.
  have low : n ≤ c * n := Nat.le_mul_of_pos_left n one
  have up : c * n + 1 ≤ c * (n + 1) := by
    rw [Nat.mul_succ]
    omega
  have wide : Ensures c (FitsInside (c * n)) expression := fun _ _ allowed phrase =>
    (h allowed phrase).mono low
  intro ts s allowed phrase
  cases phrase with
  | expression phrase =>
    have fits := ensures_expressionStatement wide allowed phrase
    cases phrase
    exact (fits_closed fits rfl rfl false).mono up
  | forLoop phrase => exact ensures_forStatement h h' _ allowed phrase
  | branch phrase => exact (ensures_ifStatement wide h' _ allowed phrase).mono up
  | print phrase =>
    have fits := ensures_printStatement wide allowed phrase
    cases phrase
    exact (fits_closed fits rfl rfl false).mono up
  | returns phrase =>
    have fits := ensures_returnStatement wide allowed phrase
    cases phrase
    exact (fits_closed fits rfl rfl false).mono up
  | whileLoop phrase => exact (ensures_whileStatement wide h' _ allowed phrase).mono up
  | block phrase =>
    exact (fits_closed (fits_block (ensures_block h'' allowed phrase)) rfl rfl false).mono up

/-! ## Declarations -/

/-- A function is as the declarations in its body, which is a level. -/
theorem ensures_function
    (h : Ensures c (fun ss => ∃ k, m = k + 1 ∧ ∀ s ∈ ss, FitsDeclaration k s) body) :
    Ensures c (fun f => FitsDeclaration m (.function f)) (FunctionOver body) := by
  intro ts f allowed phrase
  cases phrase with
  | @mk name left right ts us params statements isName _ list _ inner =>
    simp only [List.forall_mem_cons, List.forall_mem_append] at allowed
    obtain ⟨first, -, allowed, -, allowed'⟩ := allowed
    obtain ⟨plain, word⟩ := first.1.name isName
    have names : Ensures c (fun t => t.IsName ∧ t.NamesWord) (Terminal .identifier) := by
      rintro _ _ allowed ⟨shown⟩
      exact (allowed _ (List.mem_singleton_self _)).1.name shown
    have parameters := ensures_listed names allowed list
    obtain ⟨k, rfl, fits⟩ := h allowed' inner
    exact ⟨.function plain (fun t mem => (parameters t mem).1) fun s mem => (fits s mem).shaped,
      .function word (fun t mem => (parameters t mem).2) fun s mem => (fits s mem).legible,
      Nat.succ_le_succ (Stmt.nestingAll_le.2 fun s mem => (fits s mem).nesting)⟩

/-- A class is as its methods. -/
theorem ensures_classDeclaration
    (h : Ensures c (fun f => FitsDeclaration m (.function f)) (FunctionOver body)) :
    Ensures c (FitsDeclaration m) (ClassDeclaration body) := by
  have parents : Ensures c (fun t => t.IsName ∧ t.NamesWord) Parent := by
    rintro _ _ allowed ⟨-, shown⟩
    exact (allowed _ (by simp)).1.name shown
  rintro _ _ allowed ⟨-, isName, parent, -, inner, -⟩
  simp only [List.forall_mem_cons, List.forall_mem_append] at allowed
  obtain ⟨-, name, allowed, -, allowed', -⟩ := allowed
  obtain ⟨plain, word⟩ := name.1.name isName
  have superclass := ensures_maybe parents allowed parent
  have methods := ensures_many h allowed' inner
  exact ⟨.classDecl plain (fun t mem => (superclass t mem).1) fun f mem => (methods f mem).shaped,
    .classDecl word (fun t mem => (superclass t mem).2) fun f mem => (methods f mem).legible,
    Function.nestingAll_le.2 fun f mem => (methods f mem).nesting⟩

/-- Declarations are as what they are made of. -/
theorem ensures_declarationOver (h : Ensures c (FitsInside m) expression)
    (h' : ∀ isOpen, Ensures c (FitsStatement m isOpen) (statement isOpen))
    (h'' : Ensures c (fun ss => ∃ k, m = k + 1 ∧ ∀ s ∈ ss, FitsDeclaration k s) body) :
    Ensures c (FitsDeclaration m) (DeclarationOver expression body statement) := by
  intro ts s allowed phrase
  cases phrase with
  | classDecl phrase => exact ensures_classDeclaration (ensures_function h'') allowed phrase
  | function _ phrase =>
    rw [List.forall_mem_cons] at allowed
    exact ensures_function h'' allowed.2 phrase
  | varDecl phrase => exact ensures_varDeclaration h allowed phrase
  | statement phrase => exact (h' _ allowed phrase).fits

end Statements

/-- Statements and declarations are as those that were read, on every level. -/
theorem ensures_statements (one : 1 ≤ c) (n : Nat) :
    (∀ isOpen, Ensures c (FitsStatement (c * n) isOpen) (Statement n isOpen)) ∧
      Ensures c (FitsDeclaration (c * n)) (Declaration n) := by
  have wide : ∀ n, Ensures c (FitsInside (c * n)) (Expression n) := fun n _ _ allowed phrase =>
    (ensures_expression c n allowed phrase).mono (Nat.le_mul_of_pos_left n one)
  induction n with
  | zero =>
    have none : ∀ isOpen, Ensures c (FitsStatement (c * 0) isOpen) (Statement 0 isOpen) :=
      fun _ => ensures_nothing
    refine ⟨none, ?_⟩
    rw [declaration_eq]
    exact ensures_declarationOver (wide 0) none ensures_nothing
  | succ n ih =>
    obtain ⟨statements, declarations⟩ := ih
    have up : ∀ isOpen, Ensures c (FitsStatement (c * (n + 1)) isOpen) (Statement (n + 1) isOpen) :=
      ensures_statementOver one (ensures_expression c n) statements declarations
    refine ⟨up, ?_⟩
    rw [declaration_eq]
    refine ensures_declarationOver (wide (n + 1)) up fun ts ss allowed phrase => ?_
    -- A body takes one level of its own, and the others of its phrase are to spare.
    have room : c * (n + 1) = c * n + (c - 1) + 1 := by
      rw [Nat.mul_succ]
      omega
    exact ⟨_, room, fun s mem =>
      (ensures_block declarations allowed phrase s mem).mono (Nat.le_add_right ..)⟩

/-- A declaration that was read from the tokens of a text is legible, has a shape that needs no
parentheses and braces, and has three levels at most for each of those of its phrase, or one for
each if there is no `for` among the tokens. -/
theorem ensures_declaration (one : 1 ≤ c) (n : Nat) :
    Ensures c (FitsDeclaration (c * n)) (Declaration n) :=
  (ensures_statements one n).2

end Grammar

end Lox
