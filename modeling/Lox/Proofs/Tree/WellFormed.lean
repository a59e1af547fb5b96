import Lox.Proofs.Tree.Legible
import Lox.Proofs.Tree.Shape

/-!
# Well-formed trees

A statement is well formed if it has the shape of one that was read and its tokens have texts that
can be read back. In which lines the tokens stand makes no difference: a tree is well formed if it
is equal, but for lines, to one that is (`Stmt.WellFormed.congr`). The inductions follow the tree
that is known to be well formed, and each case first finds that the other tree has the same root.
-/

namespace Lox

/-! ## Tokens and rows -/

namespace Token

variable {t u : Token} {type : TokenType}

/-- Tokens that are equal but for lines have the same type. -/
theorem type_congr (same : t.erased = u.erased) : t.type = u.type := by
  rw [← erased_type, same, erased_type]

/-- Tokens that are equal but for lines have the same text. -/
theorem spelling_congr (same : t.erased = u.erased) : t.spelling = u.spelling := by
  rw [← erased_spelling, same, erased_spelling]

/-- What equals a name but for lines is a name. -/
theorem IsName.congr (h : u.IsName) (same : t.erased = u.erased) : t.IsName := by
  rw [IsName, same, h, asName, asName, spelling_congr same]

/-- What equals the token of a type but for lines is this token. -/
theorem IsSign.congr (h : u.IsSign type) (same : t.erased = u.erased) : t.IsSign type :=
  same.trans h

/-- An operator that equals one with the text of its type but for lines has this text. -/
theorem IsSign.congr_type (h : u.IsSign u.type) (same : t.erased = u.erased) : t.IsSign t.type := by
  rw [type_congr same]
  exact h.congr same

/-- What equals a word but for lines is this word. -/
theorem NamesWord.congr (h : u.NamesWord) (same : t.erased = u.erased) : t.NamesWord := by
  have text : t.chars = u.chars := by rw [← erased_chars, same, erased_chars]
  rwa [NamesWord, text]

/-- What equals a token with the text of its type but for lines has this text. -/
theorem Fixed.congr (h : u.Fixed) (same : t.erased = u.erased) : t.Fixed := by
  rwa [Fixed, spelling_congr same, type_congr same]

end Token

/-- What holds for all that is seen like an item of a row holds for the items of a row that is seen
like it. -/
theorem forall_mem_of_map_eq {α β : Type} {f : α → β} {P : α → Prop} {as bs : List α}
    (same : bs.map f = as.map f) (h : ∀ a ∈ as, ∀ b, f b = f a → P b) : ∀ b ∈ bs, P b := by
  intro b mem
  have seen : f b ∈ as.map f := same ▸ List.mem_map_of_mem mem
  obtain ⟨a, mem', eq⟩ := List.mem_map.1 seen
  exact h a mem' b eq.symm

/-- What holds for all that is seen like an item that may be missing holds for an item that is seen
like it. -/
theorem forall_mem_of_optionMap_eq {α β : Type} {f : α → β} {P : α → Prop} {a b : Option α}
    (same : b.map f = a.map f) (h : ∀ x ∈ a, ∀ y, f y = f x → P y) : ∀ y ∈ b, P y := by
  rintro y rfl
  obtain ⟨x, mem, eq⟩ := Option.map_eq_some_iff.1 same.symm
  exact h x mem y eq.symm

/-! ## Expressions -/

namespace Expr

variable {e e' : Expr}

/-- How tightly an expression holds together does not show in lines. -/
@[simp] theorem rank_erased (e : Expr) : e.erased.rank = e.rank := by cases e <;> rfl

/-- Expressions that are equal but for lines hold together alike. -/
theorem rank_congr (same : e'.erased = e.erased) : e'.rank = e.rank := by
  rw [← rank_erased, same, rank_erased]

/-- An expression that is equal to a shaped one but for lines is shaped. -/
theorem Shaped.congr (h : e.Shaped) (same : e'.erased = e.erased) : e'.Shaped := by
  -- Removing lines keeps the constructor and what is asked of each part.
  induction h generalizing e' with
  | assign isName _ ih =>
    cases e' <;> simp only [erased, reduceCtorEq, assign.injEq] at same
    obtain ⟨name, value⟩ := same
    exact .assign (isName.congr name) (ih value)
  | binary rank isSign low high _ _ ih ih' =>
    cases e' <;> simp only [erased, reduceCtorEq, binary.injEq] at same
    obtain ⟨left, operator, right⟩ := same
    -- The tiers are those of the operator and of the operands, and none of these shows in lines.
    rw [← Token.type_congr operator] at rank
    rw [← Token.type_congr operator, ← rank_congr left] at low
    rw [← Token.type_congr operator, ← rank_congr right] at high
    exact .binary rank (isSign.congr_type operator) low high (ih left) (ih' right)
  | logical mem isSign low high _ _ ih ih' =>
    cases e' <;> simp only [erased, reduceCtorEq, logical.injEq] at same
    obtain ⟨left, operator, right⟩ := same
    rw [← Token.type_congr operator] at mem
    rw [← Token.type_congr operator, ← rank_congr left] at low
    rw [← Token.type_congr operator, ← rank_congr right] at high
    exact .logical mem (isSign.congr_type operator) low high (ih left) (ih' right)
  | call rank isSign _ _ ih ih' =>
    cases e' <;> simp only [erased, reduceCtorEq, call.injEq, erasedAll_eq_map] at same
    obtain ⟨callee, paren, arguments⟩ := same
    exact .call ((rank_congr callee).trans rank) (isSign.congr paren) (ih callee)
      (forall_mem_of_map_eq arguments fun a mem b eq => ih' a mem eq)
  | get rank isName _ ih =>
    cases e' <;> simp only [erased, reduceCtorEq, get.injEq] at same
    obtain ⟨object, name⟩ := same
    exact .get ((rank_congr object).trans rank) (isName.congr name) (ih object)
  | grouping _ ih =>
    cases e' <;> simp only [erased, reduceCtorEq, grouping.injEq] at same
    exact .grouping (ih same)
  | literal value =>
    cases e' <;> simp only [erased, reduceCtorEq] at same
    exact .literal _
  | set rank isName _ _ ih ih' =>
    cases e' <;> simp only [erased, reduceCtorEq, set.injEq] at same
    obtain ⟨object, name, value⟩ := same
    exact .set ((rank_congr object).trans rank) (isName.congr name) (ih object) (ih' value)
  | super isSign isName =>
    cases e' <;> simp only [erased, reduceCtorEq, super.injEq] at same
    exact .super (isSign.congr same.1) (isName.congr same.2)
  | this isSign =>
    cases e' <;> simp only [erased, reduceCtorEq, this.injEq] at same
    exact .this (isSign.congr same)
  | unary mem isSign rank _ ih =>
    cases e' <;> simp only [erased, reduceCtorEq, unary.injEq] at same
    obtain ⟨operator, right⟩ := same
    rw [← Token.type_congr operator] at mem
    rw [← rank_congr right] at rank
    exact .unary mem (isSign.congr_type operator) rank (ih right)
  | named isName =>
    cases e' <;> simp only [erased, reduceCtorEq, named.injEq] at same
    exact .named (isName.congr same)

/-- An expression that is equal to a legible one but for lines is legible. -/
theorem Legible.congr (h : e.Legible) (same : e'.erased = e.erased) : e'.Legible := by
  induction h generalizing e' with
  | assign word _ ih =>
    cases e' <;> simp only [erased, reduceCtorEq, assign.injEq] at same
    exact .assign (word.congr same.1) (ih same.2)
  | binary fixed _ _ ih ih' =>
    cases e' <;> simp only [erased, reduceCtorEq, binary.injEq] at same
    obtain ⟨left, operator, right⟩ := same
    exact .binary (fixed.congr operator) (ih left) (ih' right)
  | logical fixed _ _ ih ih' =>
    cases e' <;> simp only [erased, reduceCtorEq, logical.injEq] at same
    obtain ⟨left, operator, right⟩ := same
    exact .logical (fixed.congr operator) (ih left) (ih' right)
  | call _ _ ih ih' =>
    cases e' <;> simp only [erased, reduceCtorEq, call.injEq, erasedAll_eq_map] at same
    obtain ⟨callee, -, arguments⟩ := same
    exact .call (ih callee) (forall_mem_of_map_eq arguments fun a mem b eq => ih' a mem eq)
  | get word _ ih =>
    cases e' <;> simp only [erased, reduceCtorEq, get.injEq] at same
    exact .get (word.congr same.2) (ih same.1)
  | grouping _ ih =>
    cases e' <;> simp only [erased, reduceCtorEq, grouping.injEq] at same
    exact .grouping (ih same)
  | literal legible =>
    cases e' <;> simp only [erased, reduceCtorEq, literal.injEq] at same
    exact .literal (same ▸ legible)
  | set word _ _ ih ih' =>
    cases e' <;> simp only [erased, reduceCtorEq, set.injEq] at same
    obtain ⟨object, name, value⟩ := same
    exact .set (word.congr name) (ih object) (ih' value)
  | super word =>
    cases e' <;> simp only [erased, reduceCtorEq, super.injEq] at same
    exact .super (word.congr same.2)
  | this =>
    cases e' <;> simp only [erased, reduceCtorEq] at same
    exact .this _
  | unary mem fixed _ ih =>
    cases e' <;> simp only [erased, reduceCtorEq, unary.injEq] at same
    obtain ⟨operator, right⟩ := same
    rw [← Token.type_congr operator] at mem
    exact .unary mem (fixed.congr operator) (ih right)
  | named word =>
    cases e' <;> simp only [erased, reduceCtorEq, named.injEq] at same
    exact .named (word.congr same)

end Expr

/-! ## Statements -/

namespace Stmt

variable {s s' : Stmt}

/-- Whether an `else` would belong inside a statement does not show in lines. -/
@[simp] theorem endsOpen_erased : (s : Stmt) → s.erased.endsOpen = s.endsOpen
  | ifElse _ _ elseBranch => by simp [erased, endsOpen, endsOpen_erased elseBranch]
  | whileLoop _ body => by simp [erased, endsOpen, endsOpen_erased body]
  | block _ | function _ | expression _ | classDecl _ _ _ | ifThen _ _ | print _ | returns _ _
  | varDecl _ _ => by simp [erased, endsOpen]

/-- Whether a statement is a declaration does not show in lines. -/
@[simp] theorem isDeclaration_erased (s : Stmt) : s.erased.isDeclaration = s.isDeclaration := by
  cases s <;> rfl

/-- Statements that are equal but for lines are declarations alike. -/
theorem isDeclaration_congr (same : s'.erased = s.erased) : s'.isDeclaration = s.isDeclaration := by
  rw [← isDeclaration_erased, same, isDeclaration_erased]

/-- Statements that are equal but for lines are open alike. -/
theorem endsOpen_congr (same : s'.erased = s.erased) : s'.endsOpen = s.endsOpen := by
  rw [← endsOpen_erased, same, endsOpen_erased]

/-- A statement that is equal to a shaped one but for lines is shaped. -/
theorem Shaped.congr (h : s.Shaped) (same : s'.erased = s.erased) : s'.Shaped := by
  induction h generalizing s' with
  | block _ ih =>
    cases s' <;> simp only [erased, reduceCtorEq, block.injEq, erasedAll_eq_map] at same
    exact .block (forall_mem_of_map_eq same fun a mem b eq => ih a mem eq)
  | function isName names _ ih =>
    cases s' <;> simp only [erased, reduceCtorEq, function.injEq] at same
    rename_i f
    -- A function without a body does not equal one with a body.
    cases f <;> simp only [Function.erased, reduceCtorEq, Function.defined.injEq,
      erasedAll_eq_map] at same
    obtain ⟨name, params, body⟩ := same
    exact .function (isName.congr name)
      (forall_mem_of_map_eq params fun a mem b eq => (names a mem).congr eq)
      (forall_mem_of_map_eq body fun a mem b eq => ih a mem eq)
  | expression shaped =>
    cases s' <;> simp only [erased, reduceCtorEq, expression.injEq] at same
    exact .expression (shaped.congr same)
  | classDecl isName parent _ ih =>
    cases s' <;>
      simp only [erased, reduceCtorEq, classDecl.injEq, Function.erasedAll_eq_map] at same
    obtain ⟨name, superclass, methods⟩ := same
    exact .classDecl (isName.congr name)
      (forall_mem_of_optionMap_eq superclass fun a mem b eq => (parent a mem).congr eq)
      (forall_mem_of_map_eq methods fun a mem b eq => ih a mem (congrArg Stmt.function eq))
  | ifThen shaped branch _ ih =>
    cases s' <;> simp only [erased, reduceCtorEq, ifThen.injEq] at same
    obtain ⟨condition, thenBranch⟩ := same
    exact .ifThen (shaped.congr condition) ((isDeclaration_congr thenBranch).trans branch)
      (ih thenBranch)
  | ifElse shaped branch closed branch' _ _ ih ih' =>
    cases s' <;> simp only [erased, reduceCtorEq, ifElse.injEq] at same
    obtain ⟨condition, thenBranch, elseBranch⟩ := same
    exact .ifElse (shaped.congr condition) ((isDeclaration_congr thenBranch).trans branch)
      ((endsOpen_congr thenBranch).trans closed) ((isDeclaration_congr elseBranch).trans branch')
      (ih thenBranch) (ih' elseBranch)
  | print shaped =>
    cases s' <;> simp only [erased, reduceCtorEq, print.injEq] at same
    exact .print (shaped.congr same)
  | returns isSign shaped =>
    cases s' <;> simp only [erased, reduceCtorEq, returns.injEq] at same
    exact .returns (isSign.congr same.1)
      (forall_mem_of_optionMap_eq same.2 fun a mem b eq => (shaped a mem).congr eq)
  | varDecl isName shaped =>
    cases s' <;> simp only [erased, reduceCtorEq, varDecl.injEq] at same
    exact .varDecl (isName.congr same.1)
      (forall_mem_of_optionMap_eq same.2 fun a mem b eq => (shaped a mem).congr eq)
  | whileLoop shaped inner _ ih =>
    cases s' <;> simp only [erased, reduceCtorEq, whileLoop.injEq] at same
    obtain ⟨condition, body⟩ := same
    exact .whileLoop (shaped.congr condition) ((isDeclaration_congr body).trans inner) (ih body)

/-- A statement that is equal to a legible one but for lines is legible. -/
theorem Legible.congr (h : s.Legible) (same : s'.erased = s.erased) : s'.Legible := by
  induction h generalizing s' with
  | block _ ih =>
    cases s' <;> simp only [erased, reduceCtorEq, block.injEq, erasedAll_eq_map] at same
    exact .block (forall_mem_of_map_eq same fun a mem b eq => ih a mem eq)
  | declared word words =>
    cases s' <;> simp only [erased, reduceCtorEq, function.injEq] at same
    rename_i f
    cases f <;> simp only [Function.erased, reduceCtorEq, Function.declared.injEq] at same
    obtain ⟨name, params⟩ := same
    exact .declared (word.congr name)
      (forall_mem_of_map_eq params fun a mem b eq => (words a mem).congr eq)
  | function word words _ ih =>
    cases s' <;> simp only [erased, reduceCtorEq, function.injEq] at same
    rename_i f
    cases f <;> simp only [Function.erased, reduceCtorEq, Function.defined.injEq,
      erasedAll_eq_map] at same
    obtain ⟨name, params, body⟩ := same
    exact .function (word.congr name)
      (forall_mem_of_map_eq params fun a mem b eq => (words a mem).congr eq)
      (forall_mem_of_map_eq body fun a mem b eq => ih a mem eq)
  | expression legible =>
    cases s' <;> simp only [erased, reduceCtorEq, expression.injEq] at same
    exact .expression (legible.congr same)
  | classDecl word parent _ ih =>
    cases s' <;>
      simp only [erased, reduceCtorEq, classDecl.injEq, Function.erasedAll_eq_map] at same
    obtain ⟨name, superclass, methods⟩ := same
    exact .classDecl (word.congr name)
      (forall_mem_of_optionMap_eq superclass fun a mem b eq => (parent a mem).congr eq)
      (forall_mem_of_map_eq methods fun a mem b eq => ih a mem (congrArg Stmt.function eq))
  | ifThen legible _ ih =>
    cases s' <;> simp only [erased, reduceCtorEq, ifThen.injEq] at same
    exact .ifThen (legible.congr same.1) (ih same.2)
  | ifElse legible _ _ ih ih' =>
    cases s' <;> simp only [erased, reduceCtorEq, ifElse.injEq] at same
    obtain ⟨condition, thenBranch, elseBranch⟩ := same
    exact .ifElse (legible.congr condition) (ih thenBranch) (ih' elseBranch)
  | print legible =>
    cases s' <;> simp only [erased, reduceCtorEq, print.injEq] at same
    exact .print (legible.congr same)
  | returns legible =>
    cases s' <;> simp only [erased, reduceCtorEq, returns.injEq] at same
    exact .returns (forall_mem_of_optionMap_eq same.2 fun a mem b eq => (legible a mem).congr eq)
  | varDecl word legible =>
    cases s' <;> simp only [erased, reduceCtorEq, varDecl.injEq] at same
    exact .varDecl (word.congr same.1)
      (forall_mem_of_optionMap_eq same.2 fun a mem b eq => (legible a mem).congr eq)
  | whileLoop legible _ ih =>
    cases s' <;> simp only [erased, reduceCtorEq, whileLoop.injEq] at same
    exact .whileLoop (legible.congr same.1) (ih same.2)

/-- A statement is well formed. -/
structure WellFormed (s : Stmt) : Prop where
  /-- Its operators, calls, assignments and branches stand where they are read as they are, the body
  of every function is present, and its names, operators and keywords are those of their construct.
  -/
  shaped : s.Shaped
  /-- Its names are no keywords, its strings hold no quote, and its numbers have no sign. -/
  legible : s.Legible

/-- A statement that is equal to a well-formed one but for lines is well formed. -/
theorem WellFormed.congr (h : s.WellFormed) (same : s'.erased = s.erased) : s'.WellFormed :=
  ⟨h.shaped.congr same, h.legible.congr same⟩

end Stmt

end Lox
