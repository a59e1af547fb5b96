import Lox.Proofs.Grammar.Spelling

/-!
# The phrases of spelled programs

The spelling of a statement that has the shape of one that was read is a phrase for it, with as many
levels as it needs (`program_of_spelled` for a row of them). Its mark says whether an `if` is open
at its end, which depends on the tree alone.
-/

namespace Lox

namespace Grammar

/-- The body of a function, which is a level. -/
def Body : (levels : Nat) → Lang (List Stmt)
  | 0 => Nothing
  | n + 1 => Block (Declaration n)

/-- What a declaration nests at a level. -/
theorem declaration_eq (n : Nat) :
    Declaration n = DeclarationOver (Expression n) (Body n) (Statement n) := by
  cases n <;> rfl

/-- What a function may be read as, at a level. -/
structure Derives (n : Nat) (s : Stmt) : Prop where
  /-- The spelling of a declaration is a declaration. -/
  declaration : ∀ ⦃ts⦄, ts.map Token.erased = s.spelling → Upto Stmt.erased (Declaration n) ts s
  /-- The spelling of a statement is a statement. -/
  statement : s.isDeclaration = false → ∀ ⦃ts⦄, ts.map Token.erased = s.spelling →
    Upto Stmt.erased (Statement n s.endsOpen) ts s
  /-- The spelling of a function, from its name on, is a function. -/
  function : ∀ ⦃f⦄, s = .function f → ∀ ⦃ts⦄, ts.map Token.erased = f.spelling →
    Upto Function.erased (FunctionOver (Body n)) ts f

/-- A statement is a declaration. -/
theorem derives_of_statement {n : Nat} {s : Stmt} (plain : s.isDeclaration = false)
    (h : ∀ ⦃ts⦄, ts.map Token.erased = s.spelling →
      Upto Stmt.erased (Statement n s.endsOpen) ts s) :
    Derives n s where
  declaration := by
    intro ts spelled
    obtain ⟨s', eq, phrase⟩ := h spelled
    rw [declaration_eq]
    exact ⟨s', eq, .statement phrase⟩
  statement := fun _ => h
  function := by
    rintro f rfl
    cases plain

/-- An expression that may be missing is spelled by a phrase that may be. -/
theorem maybe_of_spelled {value : Option Expr} {n : Nat} (shaped : ∀ e ∈ value, e.Shaped)
    (enough : Expr.nestingOption value ≤ n) {ts : List Token}
    (spelled : ts.map Token.erased = Expr.spellingAfter [] value) :
    Upto (Option.map Expr.erased) (Maybe (Expression n)) ts value := by
  cases value with
  | none =>
    obtain rfl := List.map_eq_nil_iff.1 spelled
    exact ⟨none, rfl, .none⟩
  | some e =>
    obtain ⟨e', eq, phrase⟩ := expression_of_spelled (shaped e rfl) enough spelled
    exact ⟨some e', by rw [Option.map_some, Option.map_some, eq], .some phrase⟩

/-- The initializer of a variable is spelled by a phrase that may be missing. -/
theorem initializer_of_spelled {value : Option Expr} {n : Nat} (shaped : ∀ e ∈ value, e.Shaped)
    (enough : Expr.nestingOption value ≤ n) {ts : List Token}
    (spelled : ts.map Token.erased = Expr.spellingAfter [.sign .equal] value) :
    Upto (Option.map Expr.erased) (Maybe (Initializer (Expression n))) ts value := by
  cases value with
  | none =>
    obtain rfl := List.map_eq_nil_iff.1 spelled
    exact ⟨none, rfl, .none⟩
  | some e =>
    obtain ⟨equals, ts, rfl, isEquals, spelled⟩ := split_cons spelled
    obtain ⟨e', eq, phrase⟩ := expression_of_spelled (shaped e rfl) enough spelled
    exact ⟨some e', by rw [Option.map_some, Option.map_some, eq],
      .some (.mk (type_of_erased isEquals) phrase)⟩

/-- The name of a superclass is spelled by a phrase that may be missing. -/
theorem parent_of_spelled {superclass : Option Token} (isName : ∀ t ∈ superclass, t.IsName)
    {ts : List Token} (spelled : ts.map Token.erased = Token.parentSpelling superclass) :
    Upto (Option.map Token.erased) (Maybe Parent) ts superclass := by
  cases superclass with
  | none =>
    obtain rfl := List.map_eq_nil_iff.1 spelled
    exact ⟨none, rfl, .none⟩
  | some parent =>
    obtain ⟨less, ts, rfl, isLess, spelled⟩ := split_cons spelled
    obtain ⟨t, rfl, shown⟩ := split_singleton spelled
    refine ⟨some t, ?_, .some (.mk (type_of_erased isLess) (type_of_erased shown))⟩
    rw [Option.map_some, Option.map_some, shown, isName parent rfl]

/-- The parameters of a function are spelled by names with commas between them. -/
theorem params_of_spelled {params ts : List Token} (isName : ∀ t ∈ params, t.IsName)
    (spelled : ts.map Token.erased = Token.listed (params.map ([·.asName]))) :
    Upto (List.map Token.erased) (Listed (Terminal .identifier)) ts params := by
  refine listed_of_spelled (fun t mem ts spelled => ?_) spelled
  obtain ⟨u, rfl, shown⟩ := split_singleton spelled
  exact ⟨u, by rw [shown, isName t mem], .mk (type_of_erased shown)⟩

/-- Declarations between braces are spelled by a block. -/
theorem block_of_spelled {statements : List Stmt} {n : Nat}
    (h : ∀ s ∈ statements, Derives n s) {ts : List Token}
    (spelled : ts.map Token.erased =
      .sign .leftBrace :: (Stmt.spellingAll statements ++ [.sign .rightBrace])) :
    Upto (List.map Stmt.erased) (Block (Declaration n)) ts statements := by
  obtain ⟨left, ts, rfl, isLeft, spelled⟩ := split_cons spelled
  obtain ⟨ts, right, rfl, inner, isRight⟩ := split_snoc spelled
  rw [Stmt.spellingAll_eq] at inner
  obtain ⟨statements', eq, phrases⟩ :=
    many_of_spelled (fun s mem ts spelled => (h s mem).declaration spelled) inner
  exact ⟨statements', eq, .mk (type_of_erased isLeft) phrases (type_of_erased isRight)⟩

/-- A condition between parentheses after a keyword, as it stands in front of a branch or a body. -/
theorem split_condition {condition : Expr} {n : Nat} (shaped : condition.Shaped)
    (enough : condition.nesting + 1 ≤ n) {type : TokenType} {ts rest : List Token}
    (spelled : ts.map Token.erased =
      .sign type :: .sign .leftParen :: (condition.spelling ++ .sign .rightParen :: rest)) :
    ∃ keyword left right us vs condition', ts = keyword :: left :: (us ++ right :: vs) ∧
      keyword.type = type ∧ left.type = .leftParen ∧ right.type = .rightParen ∧
      condition'.erased = condition.erased ∧ Expression n us condition' ∧
      vs.map Token.erased = rest := by
  obtain ⟨keyword, ts, rfl, isKeyword, spelled⟩ := split_cons spelled
  obtain ⟨left, ts, rfl, isLeft, spelled⟩ := split_cons spelled
  obtain ⟨us, ts, rfl, first, spelled⟩ := split_append spelled
  obtain ⟨right, vs, rfl, isRight, spelled⟩ := split_cons spelled
  obtain ⟨condition', eq, phrase⟩ := expression_of_spelled shaped enough first
  exact ⟨keyword, left, right, us, vs, condition', rfl, type_of_erased isKeyword,
    type_of_erased isLeft, type_of_erased isRight, eq, phrase, spelled⟩

section Cases

variable {n : Nat} {e condition : Expr} {name keyword : Token} {body thenBranch elseBranch : Stmt}

/-- A block. -/
theorem derives_block {statements : List Stmt} (each : ∀ s ∈ statements, Derives n s) :
    Derives (n + 1) (.block statements) := by
  refine derives_of_statement rfl fun ts spelled => ?_
  obtain ⟨statements', eq, phrase⟩ := block_of_spelled each spelled
  refine ⟨.block statements', ?_, .block phrase⟩
  rw [Stmt.erased, Stmt.erased, Stmt.erasedAll_eq_map, eq, Stmt.erasedAll_eq_map]

/-- A function, from its name on. -/
theorem function_of_spelled {params ts : List Token} {body : List Stmt} (isName : name.IsName)
    (areNames : ∀ t ∈ params, t.IsName) (each : ∀ s ∈ body, Derives n s)
    (spelled : ts.map Token.erased = (Function.defined name params body).spelling) :
    Upto Function.erased (FunctionOver (Body (n + 1))) ts (.defined name params body) := by
  obtain ⟨t, ts, rfl, shown, spelled⟩ := split_cons spelled
  obtain ⟨left, ts, rfl, isLeft, spelled⟩ := split_cons spelled
  obtain ⟨ts, us, rfl, list, spelled⟩ := split_append spelled
  obtain ⟨right, us, rfl, isRight, spelled⟩ := split_cons spelled
  obtain ⟨params', eqs, phrases⟩ := params_of_spelled areNames list
  obtain ⟨body', eq, phrase⟩ := block_of_spelled each spelled
  refine ⟨.defined t params' body', ?_, .mk (type_of_erased shown) (type_of_erased isLeft) phrases
    (type_of_erased isRight) phrase⟩
  rw [Function.erased, Function.erased, Stmt.erasedAll_eq_map, Stmt.erasedAll_eq_map, eq, eqs,
    shown, isName]

/-- The declaration of a function. -/
theorem derives_function {params : List Token} {body : List Stmt} (isName : name.IsName)
    (areNames : ∀ t ∈ params, t.IsName) (each : ∀ s ∈ body, Derives n s) :
    Derives (n + 1) (.function (.defined name params body)) where
  declaration := by
    intro ts spelled
    obtain ⟨keyword, ts, rfl, isFun, spelled⟩ := split_cons spelled
    obtain ⟨f, eq, phrase⟩ := function_of_spelled isName areNames each spelled
    rw [declaration_eq]
    exact ⟨.function f, by rw [Stmt.erased, Stmt.erased, eq],
      .function (type_of_erased isFun) phrase⟩
  statement := fun none => Bool.noConfusion none
  function := by
    rintro f eq ts spelled
    obtain rfl := Stmt.function.inj eq
    exact function_of_spelled isName areNames each spelled

/-- An expression statement. -/
theorem derives_expression (shaped : e.Shaped) (enough : e.nesting + 1 ≤ n) :
    Derives (n + 1) (.expression e) := by
  refine derives_of_statement rfl fun ts spelled => ?_
  obtain ⟨ts, semicolon, rfl, inner, isSemicolon⟩ := split_snoc spelled
  obtain ⟨e', eq, phrase⟩ := expression_of_spelled shaped enough inner
  exact ⟨.expression e', by rw [Stmt.erased, Stmt.erased, eq],
    .expression (.mk phrase (type_of_erased isSemicolon))⟩

/-- A `print` statement. -/
theorem derives_print (shaped : e.Shaped) (enough : e.nesting + 1 ≤ n) :
    Derives (n + 1) (.print e) := by
  refine derives_of_statement rfl fun ts spelled => ?_
  obtain ⟨keyword, ts, rfl, isPrint, spelled⟩ := split_cons spelled
  obtain ⟨ts, semicolon, rfl, inner, isSemicolon⟩ := split_snoc spelled
  obtain ⟨e', eq, phrase⟩ := expression_of_spelled shaped enough inner
  exact ⟨.print e', by rw [Stmt.erased, Stmt.erased, eq],
    .print (.mk (type_of_erased isPrint) phrase (type_of_erased isSemicolon))⟩

/-- A `return` statement. -/
theorem derives_returns {value : Option Expr} (isReturn : keyword.IsSign .returnKw)
    (shaped : ∀ e ∈ value, e.Shaped) (enough : Expr.nestingOption value ≤ n) :
    Derives (n + 1) (.returns keyword value) := by
  refine derives_of_statement rfl fun ts spelled => ?_
  obtain ⟨t, ts, rfl, shown, spelled⟩ := split_cons spelled
  obtain ⟨ts, semicolon, rfl, inner, isSemicolon⟩ := split_snoc spelled
  obtain ⟨value', eq, phrase⟩ := maybe_of_spelled shaped enough inner
  exact ⟨.returns t value', by rw [Stmt.erased, Stmt.erased, eq, shown, isReturn],
    .returns (.mk (type_of_erased shown) phrase (type_of_erased isSemicolon))⟩

/-- The declaration of a variable, which is no level by itself. -/
theorem derives_varDecl {initializer : Option Expr} (isName : name.IsName)
    (shaped : ∀ e ∈ initializer, e.Shaped) (enough : Expr.nestingOption initializer ≤ n) :
    Derives n (.varDecl name initializer) where
  declaration := by
    intro ts spelled
    obtain ⟨keyword, ts, rfl, isVar, spelled⟩ := split_cons spelled
    obtain ⟨t, ts, rfl, shown, spelled⟩ := split_cons spelled
    obtain ⟨ts, semicolon, rfl, inner, isSemicolon⟩ := split_snoc spelled
    obtain ⟨initializer', eq, phrase⟩ := initializer_of_spelled shaped enough inner
    rw [declaration_eq]
    exact ⟨.varDecl t initializer', by rw [Stmt.erased, Stmt.erased, eq, shown, isName],
      .varDecl (.mk (type_of_erased isVar) (type_of_erased shown) phrase
        (type_of_erased isSemicolon))⟩
  statement := fun none => Bool.noConfusion none
  function := fun _ eq => Stmt.noConfusion eq

/-- The declaration of a class, whose methods are functions from their names on. -/
theorem derives_classDecl {superclass : Option Token} {methods : List Function}
    (isName : name.IsName) (isParent : ∀ t ∈ superclass, t.IsName)
    (each : ∀ f ∈ methods, Derives n (.function f)) :
    Derives n (.classDecl name superclass methods) where
  declaration := by
    intro ts spelled
    obtain ⟨keyword, ts, rfl, isClass, spelled⟩ := split_cons spelled
    obtain ⟨t, ts, rfl, shown, spelled⟩ := split_cons spelled
    obtain ⟨ts, us, rfl, parent, spelled⟩ := split_append spelled
    obtain ⟨left, us, rfl, isLeft, spelled⟩ := split_cons spelled
    obtain ⟨us, right, rfl, inner, isRight⟩ := split_snoc spelled
    obtain ⟨superclass', eq, phrase⟩ := parent_of_spelled isParent parent
    rw [Function.spellingAll_eq] at inner
    obtain ⟨methods', eqs, phrases⟩ :=
      many_of_spelled (fun f mem ts spelled => (each f mem).function rfl spelled) inner
    rw [declaration_eq]
    refine ⟨.classDecl t superclass' methods', ?_, .classDecl (.mk (type_of_erased isClass)
      (type_of_erased shown) phrase (type_of_erased isLeft) phrases (type_of_erased isRight))⟩
    rw [Stmt.erased, Stmt.erased, Function.erasedAll_eq_map, Function.erasedAll_eq_map, eq, eqs,
      shown, isName]
  statement := fun none => Bool.noConfusion none
  function := fun _ eq => Stmt.noConfusion eq

/-- An `if` statement without `else`. -/
theorem derives_ifThen (shaped : condition.Shaped) (enough : condition.nesting + 1 ≤ n)
    (plain : thenBranch.isDeclaration = false) (h : Derives n thenBranch) :
    Derives (n + 1) (.ifThen condition thenBranch) := by
  refine derives_of_statement rfl fun ts spelled => ?_
  obtain ⟨keyword, left, right, us, vs, condition', rfl, isIf, isLeft, isRight, eq, phrase,
    spelled⟩ := split_condition shaped enough spelled
  obtain ⟨thenBranch', eq', phrase'⟩ := h.statement plain spelled
  exact ⟨.ifThen condition' thenBranch', by rw [Stmt.erased, Stmt.erased, eq, eq'],
    .branch (.ifThen isIf isLeft phrase isRight phrase')⟩

/-- An `if` statement with `else`, in whose first branch no `if` is open. -/
theorem derives_ifElse (shaped : condition.Shaped) (enough : condition.nesting + 1 ≤ n)
    (plain : thenBranch.isDeclaration = false) (closed : thenBranch.endsOpen = false)
    (plain' : elseBranch.isDeclaration = false) (h : Derives n thenBranch)
    (h' : Derives n elseBranch) : Derives (n + 1) (.ifElse condition thenBranch elseBranch) := by
  refine derives_of_statement rfl fun ts spelled => ?_
  obtain ⟨keyword, left, right, us, vs, condition', rfl, isIf, isLeft, isRight, eq, phrase,
    spelled⟩ := split_condition shaped enough spelled
  obtain ⟨vs, xs, rfl, first, spelled⟩ := split_append spelled
  obtain ⟨other, xs, rfl, isElse, second⟩ := split_cons spelled
  obtain ⟨thenBranch', eq', phrase'⟩ := h.statement plain first
  obtain ⟨elseBranch', eq'', phrase''⟩ := h'.statement plain' second
  rw [closed] at phrase'
  exact ⟨.ifElse condition' thenBranch' elseBranch',
    by rw [Stmt.erased, Stmt.erased, eq, eq', eq''],
    .branch (.ifElse isIf isLeft phrase isRight phrase' (type_of_erased isElse) phrase'')⟩

/-- A `while` loop. -/
theorem derives_whileLoop (shaped : condition.Shaped) (enough : condition.nesting + 1 ≤ n)
    (plain : body.isDeclaration = false) (h : Derives n body) :
    Derives (n + 1) (.whileLoop condition body) := by
  refine derives_of_statement rfl fun ts spelled => ?_
  obtain ⟨keyword, left, right, us, vs, condition', rfl, isWhile, isLeft, isRight, eq, phrase,
    spelled⟩ := split_condition shaped enough spelled
  obtain ⟨body', eq', phrase'⟩ := h.statement plain spelled
  exact ⟨.whileLoop condition' body', by rw [Stmt.erased, Stmt.erased, eq, eq'],
    .whileLoop (.mk isWhile isLeft phrase isRight phrase')⟩

end Cases

/-- The spelling of a shaped declaration is a phrase for it with the levels that it needs. -/
theorem derives_of_shaped {s : Stmt} (shaped : s.Shaped) {n : Nat} (enough : s.nesting ≤ n) :
    Derives n s := by
  -- As for expressions, one case for each way to shape a declaration. Only `var` and `class` use up
  -- no level of their own.
  induction shaped generalizing n with
  | block _ ih =>
    rw [Stmt.nesting] at enough
    obtain ⟨m, rfl, below⟩ := exists_level enough
    exact derives_block fun s mem => ih s mem (Stmt.nestingAll_le.1 below s mem)
  | function isName areNames _ ih =>
    rw [Stmt.nesting, Function.nesting] at enough
    obtain ⟨m, rfl, below⟩ := exists_level enough
    exact derives_function isName areNames fun s mem => ih s mem (Stmt.nestingAll_le.1 below s mem)
  | expression shaped =>
    rw [Stmt.nesting] at enough
    obtain ⟨m, rfl, below⟩ := exists_level enough
    exact derives_expression shaped below
  | classDecl isName isParent _ ih =>
    rw [Stmt.nesting, Function.nestingAll_le] at enough
    exact derives_classDecl isName isParent fun f mem => ih f mem (enough f mem)
  | ifThen shaped plain _ ih =>
    rw [Stmt.nesting] at enough
    obtain ⟨m, rfl, below⟩ := exists_level enough
    rw [Nat.max_le] at below
    exact derives_ifThen shaped below.1 plain (ih below.2)
  | ifElse shaped plain closed plain' _ _ ih ih' =>
    rw [Stmt.nesting] at enough
    obtain ⟨m, rfl, below⟩ := exists_level enough
    rw [Nat.max_le, Nat.max_le] at below
    exact derives_ifElse shaped below.1 plain closed plain' (ih below.2.1) (ih' below.2.2)
  | print shaped =>
    rw [Stmt.nesting] at enough
    obtain ⟨m, rfl, below⟩ := exists_level enough
    exact derives_print shaped below
  | returns isReturn shaped =>
    rw [Stmt.nesting] at enough
    obtain ⟨m, rfl, below⟩ := exists_level enough
    exact derives_returns isReturn shaped below
  | varDecl isName shaped =>
    rw [Stmt.nesting] at enough
    exact derives_varDecl isName shaped enough
  | whileLoop shaped plain _ ih =>
    rw [Stmt.nesting] at enough
    obtain ⟨m, rfl, below⟩ := exists_level enough
    rw [Nat.max_le] at below
    exact derives_whileLoop shaped below.1 plain (ih below.2)

/-- The spelling of shaped declarations is a program that stands for them, if there are as many
levels as they need. -/
theorem program_of_spelled {ss : List Stmt} {n : Nat} (shaped : ∀ s ∈ ss, s.Shaped)
    (enough : ∀ s ∈ ss, s.nesting ≤ n) {ts : List Token}
    (spelled : ts.map Token.erased = Stmt.spellingAll ss) :
    Upto (List.map Stmt.erased) (Program n) ts ss := by
  rw [Stmt.spellingAll_eq] at spelled
  exact many_of_spelled (fun s mem ts spelled =>
    (derives_of_shaped (shaped s mem) (enough s mem)).declaration spelled) spelled

end Grammar

end Lox
