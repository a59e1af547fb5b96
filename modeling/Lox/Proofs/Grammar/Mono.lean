import Lox.Proofs.Grammar.SpellingStatement

/-!
# More levels

A phrase stays one if more levels are allowed (`program_mono`). Every production keeps phrases when
the languages that it is given grow, and the levels tie these together.
-/

namespace Lox.Grammar

variable {α : Type} {n m : Nat}

/-- Every phrase of a language is one of another, for the same tree. -/
def Within (L L' : Lang α) : Prop := ∀ ⦃ts a⦄, L ts a → L' ts a

/-- A language is within itself. -/
theorem Within.refl (L : Lang α) : Within L L := fun _ _ phrase => phrase

/-- What is within a language is within those that it is within. -/
theorem Within.trans {L L' L'' : Lang α} (h : Within L L') (h' : Within L' L'') : Within L L'' :=
  fun _ _ phrase => h' (h phrase)

/-- A language without phrases is within any. -/
theorem within_nothing (L : Lang α) : Within Nothing L := fun _ _ phrase => phrase.elim

/-! ## Rows -/

section Rows

variable {L L' : Lang α}

theorem many_mono (h : Within L L') : Within (Many L) (Many L') := by
  intro ts as phrase
  induction phrase with
  | nil => exact .nil
  | cons first _ ih => exact .cons (h first) ih

theorem maybe_mono (h : Within L L') : Within (Maybe L) (Maybe L') := by
  intro ts a phrase
  cases phrase with
  | none => exact .none
  | some part => exact .some (h part)

theorem listed_mono (h : Within L L') : Within (Listed L) (Listed L') := by
  have further : Within (Further L) (Further L') := by
    intro ts as phrase
    induction phrase with
    | nil => exact .nil
    | comma isComma => exact .comma isComma
    | cons isComma first _ ih => exact .cons isComma (h first) ih
  intro ts as phrase
  cases phrase with
  | nil => exact .nil
  | cons first more => exact .cons (h first) (further more)

end Rows

/-! ## Expressions -/

section Expressions

variable {L L' D D' : Lang Expr}

theorem primary_mono (h : Within L L') : Within (Primary L) (Primary L') := by
  intro ts e phrase
  cases phrase with
  | false shown => exact .false shown
  | true shown => exact .true shown
  | nil shown => exact .nil shown
  | number shown => exact .number shown
  | string shown => exact .string shown
  | this shown => exact .this shown
  | super shown isDot isName => exact .super shown isDot isName
  | named shown => exact .named shown
  | grouping isLeft inner isRight => exact .grouping isLeft (h inner) isRight

theorem trailers_mono (h : Within L L') (e : Expr) : Within (Trailers L e) (Trailers L' e) := by
  intro ts e' phrase
  induction phrase with
  | nil e => exact .nil e
  | call isLeft list isRight _ ih => exact .call isLeft (listed_mono h list) isRight ih
  | get isDot isName _ ih => exact .get isDot isName ih

theorem call_mono (h : Within L L') : Within (Call L) (Call L') := by
  rintro _ _ ⟨first, more⟩
  exact .mk (primary_mono h first) (trailers_mono h _ more)

theorem unaryOver_mono (h : Within D D') (h' : Within L L') :
    Within (UnaryOver D L) (UnaryOver D' L') := by
  intro ts e phrase
  cases phrase with
  | operator mem operand => exact .operator mem (h operand)
  | call phrase => exact .call (call_mono h' phrase)

theorem chain_mono {operators : List TokenType} {join : Expr → Token → Expr → Expr}
    (h : Within L L') : Within (Chain operators join L) (Chain operators join L') := by
  rintro _ _ ⟨first, more⟩
  refine .mk (h first) ?_
  clear first
  induction more with
  | nil e => exact .nil e
  | cons mem operand _ ih => exact .cons mem (h operand) ih

theorem logicOr_mono (h : Within L L') : Within (LogicOr L) (LogicOr L') :=
  chain_mono (chain_mono (chain_mono (chain_mono (chain_mono (chain_mono h)))))

theorem assignment_mono (h : Within D D') (h' : Within L L') :
    Within (Assignment D L) (Assignment D' L') := by
  intro ts e phrase
  cases phrase with
  | named isName isEqual inner => exact .named isName isEqual (h' inner)
  | property object isDot isName isEqual inner =>
    exact .property (call_mono h' object) isDot isName isEqual (h' inner)
  | logicOr phrase => exact .logicOr (logicOr_mono h phrase)

end Expressions

/-- One more level keeps operands and expressions. -/
theorem within_succ (n : Nat) :
    Within (Unary n) (Unary (n + 1)) ∧ Within (Expression n) (Expression (n + 1)) := by
  induction n with
  | zero => exact ⟨unaryOver_mono (within_nothing _) (within_nothing _), within_nothing _⟩
  | succ n ih =>
    have up : Within (Expression (n + 1)) (Expression (n + 2)) := assignment_mono ih.1 ih.2
    exact ⟨unaryOver_mono ih.1 up, up⟩

/-- More levels keep expressions. -/
theorem expression_mono (le : n ≤ m) : Within (Expression n) (Expression m) := by
  induction le with
  | refl => exact .refl _
  | step _ ih => exact ih.trans (within_succ _).2

/-! ## Statements -/

section Statements

variable {expression expression' : Lang Expr} {statement statement' : Bool → Lang Stmt}
  {declaration declaration' : Lang Stmt} {body body' : Lang (List Stmt)}

theorem expressionStatement_mono (h : Within expression expression') :
    Within (ExpressionStatement expression) (ExpressionStatement expression') := by
  rintro _ _ ⟨inner, isSemicolon⟩
  exact .mk (h inner) isSemicolon

theorem varDeclaration_mono (h : Within expression expression') :
    Within (VarDeclaration expression) (VarDeclaration expression') := by
  have initializers : Within (Initializer expression) (Initializer expression') := by
    rintro _ _ ⟨isEqual, inner⟩
    exact .mk isEqual (h inner)
  rintro _ _ ⟨isVar, isName, inner, isSemicolon⟩
  exact .mk isVar isName (maybe_mono initializers inner) isSemicolon

theorem block_mono (h : Within declaration declaration') :
    Within (Block declaration) (Block declaration') := by
  rintro _ _ ⟨isLeft, inner, isRight⟩
  exact .mk isLeft (many_mono h inner) isRight

theorem forInitializer_mono (h : Within expression expression') :
    Within (ForInitializer expression) (ForInitializer expression') := by
  intro ts first phrase
  cases phrase with
  | none isSemicolon => exact .none isSemicolon
  | varDecl phrase => exact .varDecl (varDeclaration_mono h phrase)
  | expression phrase => exact .expression (expressionStatement_mono h phrase)

theorem forStatement_mono (h : Within expression expression')
    (h' : ∀ isOpen, Within (statement isOpen) (statement' isOpen)) (isOpen : Bool) :
    Within (ForStatement expression statement isOpen)
      (ForStatement expression' statement' isOpen) := by
  rintro _ _ ⟨isFor, isLeft, first, test, isSemicolon, last, isRight, inner⟩
  exact .mk isFor isLeft (forInitializer_mono h first) (maybe_mono h test) isSemicolon
    (maybe_mono h last) isRight (h' _ inner)

theorem ifStatement_mono (h : Within expression expression')
    (h' : ∀ isOpen, Within (statement isOpen) (statement' isOpen)) (isOpen : Bool) :
    Within (IfStatement expression statement isOpen)
      (IfStatement expression' statement' isOpen) := by
  intro ts s phrase
  cases phrase with
  | ifThen isIf isLeft test isRight branch =>
    exact .ifThen isIf isLeft (h test) isRight (h' _ branch)
  | ifElse isIf isLeft test isRight branch isElse branch' =>
    exact .ifElse isIf isLeft (h test) isRight (h' _ branch) isElse (h' _ branch')

theorem statementOver_mono (h : Within expression expression')
    (h' : ∀ isOpen, Within (statement isOpen) (statement' isOpen))
    (h'' : Within declaration declaration') (isOpen : Bool) :
    Within (StatementOver expression statement declaration isOpen)
      (StatementOver expression' statement' declaration' isOpen) := by
  intro ts s phrase
  cases phrase with
  | expression phrase => exact .expression (expressionStatement_mono h phrase)
  | forLoop phrase => exact .forLoop (forStatement_mono h h' _ phrase)
  | branch phrase => exact .branch (ifStatement_mono h h' _ phrase)
  | print phrase =>
    obtain ⟨isPrint, inner, isSemicolon⟩ := phrase
    exact .print (.mk isPrint (h inner) isSemicolon)
  | returns phrase =>
    obtain ⟨isReturn, inner, isSemicolon⟩ := phrase
    exact .returns (.mk isReturn (maybe_mono h inner) isSemicolon)
  | whileLoop phrase =>
    obtain ⟨isWhile, isLeft, test, isRight, inner⟩ := phrase
    exact .whileLoop (.mk isWhile isLeft (h test) isRight (h' _ inner))
  | block phrase => exact .block (block_mono h'' phrase)

theorem functionOver_mono (h : Within body body') :
    Within (FunctionOver body) (FunctionOver body') := by
  rintro _ _ ⟨isName, isLeft, list, isRight, inner⟩
  exact .mk isName isLeft list isRight (h inner)

theorem declarationOver_mono (h : Within expression expression') (h' : Within body body')
    (h'' : ∀ isOpen, Within (statement isOpen) (statement' isOpen)) :
    Within (DeclarationOver expression body statement)
      (DeclarationOver expression' body' statement') := by
  intro ts s phrase
  cases phrase with
  | classDecl phrase =>
    obtain ⟨isClass, isName, parent, isLeft, inner, isRight⟩ := phrase
    exact .classDecl (.mk isClass isName parent isLeft (many_mono (functionOver_mono h') inner)
      isRight)
  | function isFun phrase => exact .function isFun (functionOver_mono h' phrase)
  | varDecl phrase => exact .varDecl (varDeclaration_mono h phrase)
  | statement phrase => exact .statement (h'' _ phrase)

end Statements

/-- One more level keeps statements and declarations. -/
theorem statements_succ (n : Nat) :
    (∀ isOpen, Within (Statement n isOpen) (Statement (n + 1) isOpen)) ∧
      Within (Declaration n) (Declaration (n + 1)) := by
  induction n with
  | zero =>
    have none : ∀ isOpen, Within (Statement 0 isOpen) (Statement 1 isOpen) := fun _ =>
      within_nothing _
    exact ⟨none, declarationOver_mono (within_nothing _) (within_nothing _) none⟩
  | succ n ih =>
    obtain ⟨statements, declarations⟩ := ih
    have up : ∀ isOpen, Within (Statement (n + 1) isOpen) (Statement (n + 2) isOpen) :=
      statementOver_mono (within_succ n).2 statements declarations
    exact ⟨up, declarationOver_mono (within_succ (n + 1)).2 (block_mono declarations) up⟩

/-- More levels keep statements. -/
theorem statement_mono (le : n ≤ m) (isOpen : Bool) :
    Within (Statement n isOpen) (Statement m isOpen) := by
  induction le with
  | refl => exact .refl _
  | step _ ih => exact ih.trans ((statements_succ _).1 isOpen)

/-- More levels keep declarations. -/
theorem declaration_mono (le : n ≤ m) : Within (Declaration n) (Declaration m) := by
  induction le with
  | refl => exact .refl _
  | step _ ih => exact ih.trans (statements_succ _).2

/-- More levels keep programs. -/
theorem program_mono (le : n ≤ m) : Within (Program n) (Program m) :=
  many_mono (declaration_mono le)

end Lox.Grammar
