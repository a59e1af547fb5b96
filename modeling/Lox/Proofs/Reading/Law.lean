import Lox.Proofs.Reading.Declaration
import Lox.Proofs.Rule.Local

/-!
# Laws of the rules

Much is true of every rule for expressions, statements and declarations because it is true of the
steps that rules are made of and is kept where steps are put together. A `Law` is such a property.
Every rule obeys it if the rules for its parts do, so the rules obey it at every level
(`Law.declaration`). A loop needs also to know that its turns read tokens, which is known from what
they recognize. The first of the laws is that reading looks one token ahead (`local_declaration`).
-/

namespace Lox.Rule

open Grammar

/-- A property of rules that only read, which holds of single steps and is kept by putting steps
together. Blaming a token that was read earlier is such a step only in an assignment. -/
structure Law where
  /-- The property. -/
  Holds : ∀ {α : Type}, Rule α → Prop
  /-- A rule with the property reads some tokens if it succeeds. -/
  sound : ∀ {α : Type} {r : Rule α}, Holds r → Sound r fun _ _ => True
  /-- It holds of results that are given without reading. -/
  pure : ∀ {α : Type} (a : α), Holds (Pure.pure a)
  /-- It holds of sequences if it holds of both parts. -/
  bind : ∀ {α β : Type} {r : Rule α} {f : α → Rule β}, Holds r → (∀ a, Holds (f a)) →
    Holds (r >>= f)
  /-- It holds of looking at the token to be read. -/
  peek : Holds peek
  /-- It holds of reading a token. -/
  read : Holds read
  /-- It holds of blaming the token to be read. -/
  fail : ∀ {α : Type} (cause : SyntaxCause), Holds (fail cause : Rule α)
  /-- It holds of reading a token of an expected type. -/
  expect : ∀ (type : TokenType) (message : String), Holds (expect type message)
  /-- It holds of what comes behind the target of an assignment. -/
  assigned : ∀ {expression : Rule Expr} (target : Expr), Holds expression →
    Holds (assigned expression target)
  /-- It holds of loops if it holds of their turns and these read tokens. -/
  loop : ∀ {β : Type} {turn : β → Rule (Option β)}, Reads turn → (∀ b, Holds (turn b)) →
    ∀ b, Holds (loop turn b)

namespace Law

variable (W : Law) {α β : Type}

/-! ## Steps -/

/-- A result that is changed. -/
theorem map {r : Rule α} (h : W.Holds r) (f : α → β) : W.Holds (f <$> r) := by
  rw [map_eq_pure_bind]
  exact W.bind h fun a => W.pure (f a)

/-- Asking for the type of the token to be read. -/
theorem comes (type : TokenType) : W.Holds (comes type) :=
  W.bind W.peek fun t => W.pure (t.type == type)

/-- Reading a token of some types. -/
theorem accept (types : List TokenType) : W.Holds (accept types) := by
  refine W.bind W.peek fun t => ?_
  split
  · exact W.map W.read some
  · exact W.pure none

/-! ## Expressions -/

section Expressions

variable {operand deeper expression : Rule Expr}

/-- Chains of operands. -/
theorem chain {tier : Tier} (notEof : .eof ∉ tier.operators) (h : W.Holds operand) :
    W.Holds (chain tier operand) := by
  rw [chain_eq]
  -- Each turn accepts an operator and reads an operand, or gives up.
  refine W.bind h (W.loop (reads_chainTurn notEof (W.sound h)) fun left => ?_)
  refine W.bind (W.accept tier.operators) fun found => ?_
  cases found with
  | none => exact W.pure none
  | some operator => exact W.bind h fun right => W.pure _

/-- Chains of some tiers. -/
theorem ladder {rungs : List Tier} (notEof : ∀ tier ∈ rungs, .eof ∉ tier.operators)
    (h : W.Holds operand) : W.Holds (ladder rungs operand) := by
  induction rungs with
  | nil => exact h
  | cons tier tighter ih =>
    obtain ⟨first, others⟩ := List.forall_mem_cons.1 notEof
    exact W.chain first (ih others)

/-- Lists of arguments. -/
theorem arguments (h : W.Holds expression) : W.Holds (arguments expression) := by
  rw [arguments_eq]
  refine W.bind (W.comes .rightParen) fun closed => ?_
  split
  · exact W.pure []
  · refine W.bind h fun e =>
      W.map (W.loop (reads_argumentsTurn (W.sound h)) (fun done => ?_) [e]) List.reverse
    refine W.bind (W.accept [.comma]) fun found => ?_
    cases found with
    | none => exact W.pure none
    | some comma =>
      refine W.bind (W.comes .rightParen) fun closed => ?_
      split
      · exact W.pure none
      · exact W.bind h fun e => W.pure _

/-- Trailers. -/
theorem trailers (h : W.Holds expression) (e : Expr) : W.Holds (trailers expression e) := by
  rw [trailers_eq]
  refine W.loop (reads_trailersTurn (W.sound h)) (fun e => W.bind W.peek fun t => ?_) e
  split
  · exact W.bind W.read fun _ => W.bind (W.arguments h) fun args =>
      W.bind (W.expect _ _) fun paren => W.pure _
  · exact W.bind W.read fun _ => W.bind (W.expect _ _) fun name => W.pure _
  · exact W.pure none

/-- Primary expressions. -/
theorem primary (h : W.Holds expression) : W.Holds (primary expression) := by
  refine W.bind W.peek fun t => ?_
  -- A token by itself, `super`, a name, parentheses, or none of them.
  split
  iterate 6 exact W.bind W.read fun t => W.pure _
  · exact W.bind W.read fun keyword => W.bind (W.expect _ _) fun _ =>
      W.bind (W.expect _ _) fun method => W.pure _
  · exact W.bind W.read fun t => W.pure _
  · exact W.bind W.read fun _ => W.bind h fun inner => W.bind (W.expect _ _) fun _ => W.pure _
  · exact W.fail _

/-- Operands of binary operators. -/
theorem unaryOver (hd : W.Holds deeper) (h : W.Holds expression) :
    W.Holds (unaryOver deeper expression) := by
  refine W.bind (W.accept unaryOperators) fun found => ?_
  cases found with
  | none => exact W.bind (W.primary h) (W.trailers h)
  | some operator => exact W.bind hd fun right => W.pure _

/-- Assignments. -/
theorem assignment (ho : W.Holds operand) (h : W.Holds expression) :
    W.Holds (assignment operand expression) := by
  rw [assignment_eq]
  exact W.bind (W.ladder (by decide) ho) fun target => W.assigned target h

end Expressions

/-- At every level operands and expressions obey the law. -/
theorem levels (limit : Int) (n : Nat) :
    W.Holds (unary limit n) ∧ W.Holds (expression limit n) := by
  induction n with
  | zero => exact ⟨W.unaryOver (W.fail _) (W.fail _), W.fail _⟩
  | succ n ih =>
    obtain ⟨operands, expressions⟩ := ih
    have assignments := W.assignment operands expressions
    exact ⟨W.unaryOver operands assignments, assignments⟩

/-! ## Statements -/

section Statements

variable {expression : Rule Expr} {statement declaration : Rule Stmt} {body : Rule (List Stmt)}

/-- Expression statements. -/
theorem expressionStatement (h : W.Holds expression) : W.Holds (expressionStatement expression) :=
  W.bind h fun _ => W.bind (W.expect _ _) fun _ => W.pure _

/-- Variable declarations. -/
theorem varDeclaration (h : W.Holds expression) : W.Holds (varDeclaration expression) := by
  have value : W.Holds (initial expression) := by
    refine W.bind (W.accept [.equal]) fun found => ?_
    cases found with
    | none => exact W.pure none
    | some equals => exact W.map h some
  rw [varDeclaration_eq]
  exact W.bind (W.expect _ _) fun name => W.bind value fun _ => W.bind (W.expect _ _) fun _ =>
    W.pure _

/-- Expressions that may be left out. -/
theorem optionalUntil (type : TokenType) (h : W.Holds expression) :
    W.Holds (optionalUntil type expression) := by
  refine W.bind (W.comes type) fun ends => ?_
  split
  · exact W.pure none
  · exact W.map h some

/-- First clauses of `for` loops. -/
theorem forInitializer (h : W.Holds expression) : W.Holds (forInitializer expression) := by
  refine W.bind W.peek fun t => ?_
  split
  · exact W.bind W.read fun _ => W.pure none
  · exact W.bind W.read fun _ => W.map (W.varDeclaration h) some
  · exact W.map (W.expressionStatement h) some

/-- `for` loops. -/
theorem forStatement (h : W.Holds expression) (hs : W.Holds statement) :
    W.Holds (forStatement expression statement) :=
  W.bind (W.expect _ _) fun _ => W.bind (W.forInitializer h) fun _ =>
    W.bind (W.optionalUntil _ h) fun _ => W.bind (W.expect _ _) fun _ =>
    W.bind (W.optionalUntil _ h) fun _ => W.bind (W.expect _ _) fun _ =>
    W.bind hs fun _ => W.pure _

/-- `if` statements. -/
theorem ifStatement (h : W.Holds expression) (hs : W.Holds statement) :
    W.Holds (ifStatement expression statement) := by
  refine W.bind (W.expect _ _) fun _ => W.bind h fun condition => W.bind (W.expect _ _) fun _ =>
    W.bind hs fun thenBranch => W.bind (W.accept [.elseKw]) fun found => ?_
  cases found with
  | none => exact W.pure _
  | some keyword => exact W.bind hs fun elseBranch => W.pure _

/-- `print` statements. -/
theorem printStatement (h : W.Holds expression) : W.Holds (printStatement expression) :=
  W.bind h fun _ => W.bind (W.expect _ _) fun _ => W.pure _

/-- `return` statements. -/
theorem returnStatement (keyword : Token) (h : W.Holds expression) :
    W.Holds (returnStatement keyword expression) :=
  W.bind (W.optionalUntil _ h) fun _ => W.bind (W.expect _ _) fun _ => W.pure _

/-- `while` loops. -/
theorem whileStatement (h : W.Holds expression) (hs : W.Holds statement) :
    W.Holds (whileStatement expression statement) :=
  W.bind (W.expect _ _) fun _ => W.bind h fun _ => W.bind (W.expect _ _) fun _ =>
    W.bind hs fun _ => W.pure _

/-- Rows between braces, whose items start with tokens of some types. -/
theorem braced {types : List TokenType} {item : Rule α} {M : Lang α} (h : W.Holds item)
    (sound : Sound item M) (begins : Begins types M) (message : String) :
    W.Holds (braced item message) := by
  have row : W.Holds (items item) := by
    rw [items_eq]
    refine W.map (W.loop (reads_itemsTurn sound begins) (fun done => ?_) []) List.reverse
    refine W.bind W.peek fun t => ?_
    split
    · exact W.pure none
    · exact W.bind h fun a => W.pure _
  exact W.bind row fun all => W.bind (W.expect _ _) fun _ => W.pure all

/-- Lists of parameters. -/
theorem parameters : W.Holds parameters := by
  rw [parameters_eq]
  refine W.bind (W.accept [.identifier]) fun found => ?_
  cases found with
  | none => exact W.pure []
  | some name =>
    refine W.map (W.loop reads_parametersTurn (fun done => ?_) [name]) List.reverse
    refine W.bind (W.accept [.comma]) fun found => ?_
    cases found with
    | none => exact W.pure none
    | some comma => exact W.bind (W.accept [.identifier]) fun name => W.pure _

/-- Functions. -/
theorem function (role : String) (h : W.Holds body) : W.Holds (function role body) :=
  W.bind (W.expect _ _) fun _ => W.bind (W.expect _ _) fun _ => W.bind W.parameters fun _ =>
    W.bind (W.expect _ _) fun _ => W.bind (W.expect _ _) fun _ => W.bind h fun _ => W.pure _

/-- Names of superclasses. -/
theorem superclass : W.Holds superclass := by
  refine W.bind (W.accept [.less]) fun found => ?_
  cases found with
  | none => exact W.pure none
  | some less => exact W.map (W.expect _ _) some

/-- Classes. -/
theorem classDeclaration {B : Lang (List Stmt)} (h : W.Holds body)
    (hb : RecognizesAfter .leftBrace (fun _ => body) (fun _ => B)) :
    W.Holds (classDeclaration body) := by
  have methods := W.braced (W.function "method" h) (recognizes_function "method" hb).sound
    begins_functionOver
  exact W.bind (W.expect _ _) fun _ => W.bind W.superclass fun _ => W.bind (W.expect _ _) fun _ =>
    W.bind (methods _) fun _ => W.pure _

/-- Statements obey the law if their parts do. -/
theorem statementOver (h : W.Holds expression) (hs : W.Holds statement)
    (hd : W.Holds (block declaration)) :
    W.Holds (statementOver expression statement declaration) := by
  refine W.bind W.peek fun t => ?_
  -- In the order of the rule: `for`, `if`, `print`, `return`, `while`, a block, and else an
  -- expression.
  split
  · exact W.bind W.read fun _ => W.forStatement h hs
  · exact W.bind W.read fun _ => W.ifStatement h hs
  · exact W.bind W.read fun _ => W.printStatement h
  · exact W.bind W.read fun keyword => W.returnStatement keyword h
  · exact W.bind W.read fun _ => W.whileStatement h hs
  · exact W.bind W.read fun _ => W.map hd Stmt.block
  · exact W.expressionStatement h

/-- Declarations obey the law if their parts do. -/
theorem declarationOver {B : Lang (List Stmt)} (h : W.Holds expression) (hb : W.Holds body)
    (recognizes : RecognizesAfter .leftBrace (fun _ => body) (fun _ => B))
    (hs : W.Holds statement) : W.Holds (declarationOver expression body statement) := by
  refine W.bind W.peek fun t => ?_
  split
  · exact W.bind W.read fun _ => W.classDeclaration hb recognizes
  · exact W.bind W.read fun _ => W.map (W.function "function" hb) Stmt.function
  · exact W.bind W.read fun _ => W.varDeclaration h
  · exact hs

end Statements

/-- At every level statements and declarations obey the law. -/
theorem statements (limit : Int) (n : Nat) :
    W.Holds (statement limit n) ∧ W.Holds (declaration limit n) := by
  induction n with
  | zero => exact ⟨W.fail _, W.declarationOver (W.fail _) (W.fail _) (recognizesAfter_fail _)
      (W.fail _)⟩
  | succ n ih =>
    obtain ⟨statements, declarations⟩ := ih
    -- A loop over declarations ends because these read tokens, which is known from what they
    -- recognize.
    have recognizes := recognizes_declaration limit n
    have begins := begins_declaration n
    have blocks : W.Holds (block (Rule.declaration limit n)) :=
      W.braced declarations recognizes.sound begins _
    have statements' := W.statementOver (W.levels limit n).2 statements blocks
    exact ⟨statements', W.declarationOver (W.levels limit (n + 1)).2 blocks
      (recognizes_block recognizes begins) statements'⟩

/-- A declaration with a limit on its levels obeys the law. -/
theorem declaration (limit : Int) (n : Nat) : W.Holds (declaration limit n) :=
  (W.statements limit n).2

end Law

/-! ## Reading looks one token ahead -/

/-- What comes behind the target of an assignment is local. -/
theorem local_assigned {expression : Rule Expr} (target : Expr) (h : Local expression) :
    Local (assigned expression target) := by
  refine (local_accept [.equal]).bind fun found => ?_
  cases found with
  | none => exact .pure target
  | some equals =>
    refine h.bind fun value => ?_
    -- All that is not a name or a property is blamed, for the equals sign.
    cases target with
    | named name => exact .pure _
    | get object name => exact .pure _
    | _ => exact local_blame _ equals

/-- To be local is a law. -/
def locality : Law where
  Holds := Local
  sound := Local.sound
  pure := Local.pure
  bind := Local.bind
  peek := local_peek
  read := local_read
  fail := local_fail
  expect := local_expect
  assigned := local_assigned
  loop := local_loop

/-- A declaration with a limit on its levels is local. -/
theorem local_declaration (limit : Int) (n : Nat) : Local (declaration limit n) :=
  locality.declaration limit n

end Lox.Rule
