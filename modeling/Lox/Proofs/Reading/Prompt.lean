import Lox.Proofs.Reading.Declaration
import Lox.Proofs.Reading.PromptExpression

/-!
# Errors are found at the earliest token

Every rule for statements and declarations is prompt if the rules for its parts are. The rules for
statements are so at the sites of their kinds, where an `else` comes behind a statement only if no
`if` in it is open. A declaration that breaks off because a token does not fit has then read what
could have been completed, and it blames the first token that no declaration goes on with
(`declaration_found_first`).
-/

namespace Lox.Rule

open Ebnf
open Ebnf.Phrase (token row anyOf)

/-! ## Statements -/

section Statements

variable {expression : Rule Expr} {statement declaration : Rule Stmt} {body : Rule (List Stmt)}

/-- A rule for statements that is prompt where a statement stands. -/
abbrev PromptStatement (r : Rule Stmt) : Prop :=
  Promptly (.symbol .statement) statementSite r

/-- A rule for declarations that is prompt before what may come behind one. -/
abbrev PromptDeclaration (r : Rule Stmt) : Prop :=
  Promptly (.symbol .declaration) (before (.symbol .declaration) (followers true)) r

/-- An expression statement is prompt. -/
theorem promptly_expressionStatement (h : PromptExpression expression) :
    Promptly (.symbol .exprStmt) (before (.symbol .exprStmt) TokenType.all)
      (expressionStatement expression) :=
  Promptly.symbol .exprStmt (Promptly.row (h.bind fun e =>
    promptly_expect_bind fun _ => promptly_pure _))

/-- An expression that may be left out before a token of a type is prompt. -/
theorem promptly_optionalUntil {type : TokenType} (h : PromptExpression expression)
    (ends : ∀ t ∈ [type], t ∈ expressionEnds := by decide)
    (apart : type ∉ Grammar.expressionStarters := by decide) :
    Promptly (.maybe (.symbol .expression)) (before (.maybe (.symbol .expression)) [type])
      (optionalUntil type expression) := fun w =>
  Prompt.unless (((h.map some) w).mono ends) rfl apart

/-- The rest of a variable declaration. -/
def varTail : List Phrase :=
  [token .identifier, .maybe (row [token .equal, .symbol .expression]), token .semicolon]

/-- The rest of a variable declaration is prompt. -/
theorem promptly_varDeclaration (h : PromptExpression expression) :
    Promptly (row varTail) (within varTail (stop TokenType.all)) (varDeclaration expression) := by
  rw [varDeclaration_eq]
  refine promptly_expect_bind fun name => Promptly.bind (G := [.semicolon]) (fun w => ?_)
    fun value => promptly_expect_bind fun _ => promptly_pure _
  exact Prompt.guarded _ (fun t v _ => (h.map some v).congr (fun _ => derives_row_singleton)
    (by decide)) rfl (by decide)

/-- The first clause of a `for` loop is prompt. -/
theorem promptly_forInitializer (h : PromptExpression expression) :
    Promptly (anyOf [.symbol .varDecl, .symbol .exprStmt, token .semicolon])
      (before (anyOf [.symbol .varDecl, .symbol .exprStmt, token .semicolon]) TokenType.all)
      (forInitializer expression) := by
  intro w
  rw [forInitializer, peek_run]
  -- A semicolon by itself, a variable, or an expression; the token that is shown tells which.
  split
  · rename_i shown
    refine Prompt.anyOf (p := token .semicolon) (Prompt.single ?_) (by decide)
      (by rw [shown]; decide)
    exact Prompt.read_bind (by simpa using shown) (fun _ v _ => promptly_pure _ v)
  · rename_i shown
    refine Prompt.anyOf (p := .symbol .varDecl) (Prompt.symbol (Prompt.row ?_)) (by decide)
      (by rw [shown]; decide)
    exact Prompt.read_bind (by simpa using shown) fun _ v _ =>
      (promptly_varDeclaration h).map some v
  · rename_i notSemicolon notVar
    refine Prompt.anyOf (p := .symbol .exprStmt) (((promptly_expressionStatement h).map some) w)
      (by decide) fun q mem starts => ?_
    simp only [List.mem_cons, List.not_mem_nil, or_false] at mem
    rcases mem with rfl | rfl | rfl
    · exact (notVar (List.mem_singleton.1 starts)).elim
    · rfl
    · exact (notSemicolon (List.mem_singleton.1 starts)).elim

/-- A statement at the end of a row. -/
theorem promptly_body {β : Type} (h : PromptStatement statement) (f : Stmt → β) :
    Promptly (row [.symbol .statement]) statementSite (statement >>= fun s => return f s) := by
  rw [bind_pure_comp]
  exact fun w => (h.map f w).last

/-- A `for` loop is prompt. -/
theorem promptly_forStatement (h : PromptExpression expression) (hs : PromptStatement statement) :
    Promptly (row (forHead.tail ++ [.symbol .statement])) (within forHead.tail statementSite)
      (forStatement expression statement) :=
  promptly_expect_bind fun _ => (promptly_forInitializer h).bind fun _ =>
    (promptly_optionalUntil h).bind fun _ => promptly_expect_bind fun _ =>
    (promptly_optionalUntil h).bind fun _ => promptly_expect_bind fun _ => promptly_body hs _

/-- A `while` loop is prompt. -/
theorem promptly_whileStatement (h : PromptExpression expression)
    (hs : PromptStatement statement) :
    Promptly (row (whileHead.tail ++ [.symbol .statement])) (within whileHead.tail statementSite)
      (whileStatement expression statement) :=
  promptly_expect_bind fun _ => h.bind fun _ => promptly_expect_bind fun _ => promptly_body hs _

/-- What may come behind the head of an `if`. -/
def branches : List Phrase :=
  [.symbol .statement, .maybe (row [token .elseKw, .symbol .statement])]

/-- An `if` is prompt. Where `else` comes it is read, so behind the first branch no `else` can come
that belongs to an `if` in that branch. -/
theorem promptly_ifStatement (h : PromptExpression expression) (hs : PromptStatement statement) :
    Promptly (row (ifHead.tail ++ branches)) (within ifHead.tail branchSite)
      (ifStatement expression statement) := by
  refine promptly_expect_bind fun _ => h.bind fun condition => promptly_expect_bind fun _ w => ?_
  -- The words of the site are cut behind the first branch, with an `else` or without.
  refine (hs w).bind (Q := elseSite) (fun thenBranch v _ => Prompt.last ?_)
    (exists_derives (by decide)) fun u t allowed => allowed
  by_cases shown : v.current.type = .elseKw
  · rw [accept_bind_of_mem (by simpa using shown)]
    refine (Prompt.read_bind (show v.current.type ∈ [.elseKw] by simpa using shown)
      (fun _ x _ => promptly_body hs _ x)).weaken (fun u => .some) fun u t allowed head => ?_
    rcases allowed with ⟨rfl, mem⟩ | ⟨rest, rfl, allowed⟩
    · -- Without a second branch the statement is open, so no `else` comes behind it.
      have same : t = .elseKw := head.trans shown
      rw [same] at mem
      exact absurd mem (by decide)
    · exact ⟨[.elseKw], rest, rfl, derives_token.2 rfl, allowed⟩
  · rw [accept_bind_of_not_mem (by simpa using shown)]
    refine .ok (.refl v) .none fun u t allowed agrees => ?_
    rcases allowed with ⟨rfl, -⟩ | ⟨rest, rfl, -⟩
    · rfl
    · exact absurd agrees.headD_eq.symm shown

/-- A `print` statement is prompt. -/
theorem promptly_printStatement (h : PromptExpression expression) :
    Promptly (row [.symbol .expression, token .semicolon])
      (within [.symbol .expression, token .semicolon] (stop TokenType.all))
      (printStatement expression) :=
  h.bind fun _ => promptly_expect_bind fun _ => promptly_pure _

/-- A `return` statement is prompt. -/
theorem promptly_returnStatement (keyword : Token) (h : PromptExpression expression) :
    Promptly (row [.maybe (.symbol .expression), token .semicolon])
      (within [.maybe (.symbol .expression), token .semicolon] (stop TokenType.all))
      (returnStatement keyword expression) :=
  (promptly_optionalUntil h).bind fun _ => promptly_expect_bind fun _ => promptly_pure _

/-- A row of items up to a closing brace, and the brace. -/
theorem promptly_braced {α : Type} {item : Rule α} {p : Phrase} {G : List TokenType}
    (h : Promptly p (before p G) item) (cover : ∀ t ∈ p.starters ++ [.rightBrace], t ∈ G)
    (apart : .rightBrace ∉ p.starters ∧ .eof ∉ p.starters) (proper : p.nullable = false)
    (message : String) :
    Promptly (row [.many p, token .rightBrace])
      (within [.many p, token .rightBrace] (stop TokenType.all)) (braced item message) := by
  have all : Promptly (.many p) (before (.many p) [.rightBrace]) (items item) := by
    rw [items_eq]
    refine Promptly.map (promptly_loop (fun t => !(t == .rightBrace || t == .eof)) ?_ ?_ ?_
      (by decide) proper []) List.reverse
    · intro done w stops
      simp only [Bool.not_eq_false'] at stops
      rw [itemsTurn, peek_bind, Token.isEof, if_pos stops]
      rfl
    · intro done w goes
      simp only [Bool.not_eq_true'] at goes
      refine ⟨(· :: done) <$> item, ?_, ((h.map (· :: done)) w).mono cover⟩
      rw [itemsTurn, peek_bind, Token.isEof, goes]
      simp
    · -- No item starts with a token that ends the row.
      intro t mem
      obtain ⟨notBrace, notEof⟩ := apart
      have one : t ≠ .rightBrace := fun same => notBrace (same ▸ mem)
      have two : t ≠ .eof := fun same => notEof (same ▸ mem)
      simp [one, two]
  exact all.bind (fun _ => promptly_expect_bind fun _ => promptly_pure _) (by decide)

/-- The rest of a block behind its opening brace. -/
def blockTail : List Phrase := [.many (.symbol .declaration), token .rightBrace]

/-- A block is prompt. -/
theorem promptly_block (h : PromptDeclaration declaration) :
    Promptly (row blockTail) (within blockTail (stop TokenType.all)) (block declaration) :=
  promptly_braced h (by decide) (by decide) rfl _

/-- The rule for a kind of statement is prompt where a statement stands, if the token that is shown
starts no other kind. -/
theorem Prompt.kind {s : Symbol} {w : Window} {o : EStateM.Result Interrupt Window Stmt}
    (h : Prompt (production s) (kindSite s) w o) (mem : s ∈ kinds)
    (only : ∀ j ∈ kinds, w.current.type ∈ (kindSite j).starters → j = s) :
    Prompt (.symbol .statement) statementSite w o :=
  Prompt.choose kindSite h (fun _ derives => derives_statement.2 ⟨s, mem, .symbol derives⟩)
    (fun _ _ => exists_kind) only

/-- The rule for a kind of statement that does not end in a statement. -/
theorem Prompt.plain {s : Symbol} {w : Window} {o : EStateM.Result Interrupt Window Stmt}
    (h : Prompt (.symbol s) (before (.symbol s) TokenType.all) w o) (mem : s ∈ plain)
    (only : ∀ j ∈ kinds, w.current.type ∈ (kindSite j).starters → j = s) :
    Prompt (.symbol .statement) statementSite w o := by
  obtain ⟨among, site⟩ := kindSite_of_plain mem
  refine Prompt.kind (h.weaken (fun _ => derives_symbol.1) fun u f allowed _ => ?_) among only
  rw [site, allows_before] at allowed
  exact allows_before.2 ⟨allowed.1, TokenType.mem_all f⟩

/-- A statement is prompt if its parts are. -/
theorem promptly_statementOver (h : PromptExpression expression) (hs : PromptStatement statement)
    (hd : PromptDeclaration declaration) :
    PromptStatement (statementOver expression statement declaration) := by
  intro w
  rw [statementOver, peek_run]
  -- In the order of the rule: `for`, `if`, `print`, `return`, `while`, a block, and else an
  -- expression.
  split
  · rename_i shown
    refine Prompt.kind (s := .forStmt) ?_ (by decide) (by rw [shown]; decide)
    exact Prompt.read_bind (by simpa using shown) fun _ v _ => promptly_forStatement h hs v
  · rename_i shown
    refine Prompt.kind (s := .ifStmt) ?_ (by decide) (by rw [shown]; decide)
    exact Prompt.read_bind (by simpa using shown) fun _ v _ => promptly_ifStatement h hs v
  · rename_i shown
    refine Prompt.plain (s := .printStmt) (Prompt.symbol (Prompt.row ?_)) (by decide)
      (by rw [shown]; decide)
    exact Prompt.read_bind (by simpa using shown) fun _ v _ => promptly_printStatement h v
  · rename_i shown
    refine Prompt.plain (s := .returnStmt) (Prompt.symbol (Prompt.row ?_)) (by decide)
      (by rw [shown]; decide)
    exact Prompt.read_bind (by simpa using shown) fun keyword v _ =>
      promptly_returnStatement keyword h v
  · rename_i shown
    refine Prompt.kind (s := .whileStmt) ?_ (by decide) (by rw [shown]; decide)
    exact Prompt.read_bind (by simpa using shown) fun _ v _ => promptly_whileStatement h hs v
  · rename_i shown
    refine Prompt.plain (s := .block) (Prompt.symbol (Prompt.row ?_)) (by decide)
      (by rw [shown]; decide)
    exact Prompt.read_bind (by simpa using shown) fun _ v _ => (promptly_block hd).map Stmt.block v
  · -- Whatever starts no other kind is read as an expression.
    refine Prompt.plain (s := .exprStmt) (promptly_expressionStatement h w) (by decide) ?_
    generalize w.current.type = t at *
    cases t <;> first | exact absurd rfl ‹_› | decide

/-! ## Declarations -/

/-- What is read behind a comma in a list of parameters. -/
def parametersBehind (done : List Token) : Rule (List Token) :=
  accept [.identifier] >>= (·.elim (pure done) fun name => loop parametersTurn (name :: done))

/-- The parameters behind the first, up to the closing parenthesis. -/
theorem promptly_moreParameters (done : List Token) :
    Promptly (row (moreOf (token .identifier)))
      (before (row (moreOf (token .identifier))) [.rightParen]) (loop parametersTurn done) := by
  refine promptly_list parametersBehind (fun done => ?_) (fun done w ih => ?_) done
  · -- A turn is a comma and what comes behind it.
    rw [loop_eq reads_parametersTurn]
    simp only [parametersTurn, bind_assoc]
    congr
    funext found
    cases found with
    | none => rfl
    | some comma =>
      simp only [bind_assoc, Option.elim_some, parametersBehind]
      congr
      funext name
      cases name <;> simp
  · refine Prompt.guarded [.identifier] (b := done) (fun name v reads => ?_) rfl
      (by decide)
    have := reads.unread
    exact ih _ v (by omega)

/-- Parameters, up to the closing parenthesis. -/
theorem promptly_parameters : Promptly (.maybe (.symbol .parameters))
    (before (.maybe (.symbol .parameters)) [.rightParen]) parameters := by
  intro w
  rw [parameters_eq]
  refine (Prompt.guarded [.identifier] (p := row (moreOf (token .identifier))) (b := [])
    (fun name v _ => (promptly_moreParameters [name]).map List.reverse v) rfl (by decide)).congr
    fun u => ?_
  rw [derives_maybe, derives_maybe, derives_symbol]
  rfl

/-- A rule for bodies of functions that is prompt whatever comes behind them. -/
abbrev PromptBody (r : Rule (List Stmt)) : Prop :=
  Promptly (row blockTail) (within blockTail (stop TokenType.all)) r

/-- A function is prompt. -/
theorem promptly_function (role : String) (h : PromptBody body) :
    Promptly (.symbol .function) (before (.symbol .function) TokenType.all)
      (function role body) := by
  refine Promptly.symbol .function (Promptly.row ?_)
  refine promptly_expect_bind fun name => promptly_expect_bind fun _ =>
    promptly_parameters.bind fun params => promptly_expect_bind fun _ w => ?_
  -- The opening brace is read here, the rest of the block by the rule for bodies.
  refine Prompt.last (Promptly.symbol .block (Promptly.row ?_) w)
  refine promptly_expect_bind fun _ => ?_
  rw [bind_pure_comp]
  exact h.map _

/-- The name of a superclass is prompt. -/
theorem promptly_superclass : Promptly (.maybe (row [token .less, token .identifier]))
    (before (.maybe (row [token .less, token .identifier])) [.leftBrace]) superclass := fun w =>
  Prompt.guarded _ (fun _ v _ => ((promptly_expect .identifier _).map some v).congr
    fun _ => derives_row_singleton) rfl (by decide)

/-- The rest of a class behind its keyword. -/
def classTail : List Phrase :=
  [token .identifier, .maybe (row [token .less, token .identifier]), token .leftBrace,
    .many (.symbol .function), token .rightBrace]

/-- A class is prompt. -/
theorem promptly_classDeclaration (h : PromptBody body) :
    Promptly (row classTail) (within classTail (stop TokenType.all)) (classDeclaration body) := by
  refine promptly_expect_bind fun name => promptly_superclass.bind fun parent =>
    promptly_expect_bind fun _ => ?_
  rw [bind_pure_comp]
  exact (promptly_braced (promptly_function "method" h) (by decide) (by decide) rfl _).map _

/-- A declaration is prompt if its parts are. -/
theorem promptly_declarationOver (h : PromptExpression expression) (hb : PromptBody body)
    (hs : PromptStatement statement) :
    PromptDeclaration (declarationOver expression body statement) := by
  refine Promptly.symbol .declaration fun w => ?_
  rw [declarationOver, peek_run]
  -- In the order of the rule: `class`, `fun`, `var`, and else a statement.
  split
  · rename_i shown
    refine Prompt.anyOf (p := .symbol .classDecl) (Prompt.mono (G := TokenType.all) (Prompt.symbol
      (Prompt.row ?_))) (by decide) (by rw [shown]; decide)
    exact Prompt.read_bind (by simpa using shown) fun _ v _ => promptly_classDeclaration hb v
  · rename_i shown
    refine Prompt.anyOf (p := .symbol .funDecl) (Prompt.mono (G := TokenType.all) (Prompt.symbol
      (Prompt.row ?_))) (by decide) (by rw [shown]; decide)
    exact Prompt.read_bind (by simpa using shown) fun _ v _ =>
      ((promptly_function "function" hb).map Stmt.function v).last
  · rename_i shown
    refine Prompt.anyOf (p := .symbol .varDecl) (Prompt.mono (G := TokenType.all) (Prompt.symbol
      (Prompt.row ?_))) (by decide) (by rw [shown]; decide)
    exact Prompt.read_bind (by simpa using shown) fun _ v _ => promptly_varDeclaration h v
  · -- A statement is prompt at its own site, and behind a declaration no `else` can come.
    refine Prompt.anyOf (p := .symbol .statement)
      ((hs w).weaken (fun _ => id) fun u f allowed _ => ?_) (by decide) ?_
    · obtain ⟨derives, mem⟩ := allows_before.1 allowed
      obtain ⟨isOpen, marked⟩ := exists_marked derives
      exact ⟨isOpen, marked, mem_followers mem⟩
    · generalize w.current.type = t at *
      cases t <;> first | exact absurd rfl ‹_› | decide

end Statements

/-- At every level statements and declarations are prompt. -/
theorem promptly_statements (limit : Int) (n : Nat) :
    PromptStatement (statement limit n) ∧ PromptDeclaration (declaration limit n) := by
  induction n with
  | zero =>
    exact ⟨promptly_tooDeep limit, promptly_declarationOver (promptly_tooDeep limit)
      (promptly_tooDeep limit) (promptly_tooDeep limit)⟩
  | succ n ih =>
    obtain ⟨statements, declarations⟩ := ih
    have statements' := promptly_statementOver (promptly_levels limit n).2 statements declarations
    exact ⟨statements', promptly_declarationOver (promptly_levels limit (n + 1)).2
      (promptly_block declarations) statements'⟩

/-- **Errors are found at the earliest token.** Suppose that reading a declaration breaks off
because a token does not fit: another type was expected (`P001`), an expression was (`P005`), or the
input ends (`P010`). Then the token to blame is the one that comes next. The tokens before it, and
any shorter row of them, can be completed to a declaration of the grammar, but no declaration goes
on with a token of the type of the one to blame; and if this is the mark of the end, then the tokens
before it are no declaration, either. -/
theorem declaration_found_first (limit : Int) (levels : Nat) (w w' : Window) (e : SyntaxError)
    (h : declaration limit levels w = .error (.broken e) w')
    (misfit : e.cause.code ∈ ["P001", "P005", "P010"]) :
    ∃ ts, w.Reads ts w' ∧ e.found = w'.current ∧ (∀ us, us <+: ts → Viable (typesOf us)) ∧
      ¬ Viable (typesOf ts ++ [e.found.type]) ∧
      (e.found.isEof = true → ¬ Derives (.symbol .declaration) (typesOf ts)) := by
  have outcome := (promptly_statements limit levels).2 w
  rw [h] at outcome
  cases outcome with
  | other code => exact absurd misfit code
  | @misfit cause w' ts reads completes none =>
    -- The end may come behind a declaration, so it is enough to look at words before it.
    have ended : ∀ {u : Word}, Derives (.symbol .declaration) u →
        (before (.symbol .declaration) (followers true)).allows u .eof := fun derives =>
      allows_before.2 ⟨derives, by decide⟩
    refine ⟨ts, reads, rfl, fun us starts => ?_, ?_, fun isEof derives => ?_⟩
    · exact Viable.of_prefix completes (starts.map Token.type)
    · rintro ⟨z, derives⟩
      exact none (ended derives) ⟨[], z ++ [.eof], by simp⟩
    · have same : w'.current.type = .eof := by simpa [Token.isEof] using isEof
      exact none (ended derives) ⟨[], [], by rw [same, List.append_nil]⟩

/-- The tokens of a block in which a second `else` comes behind a statement without an open `if`. -/
def strayElse : List Token :=
  [(.leftBrace, "\x7b"), (.ifKw, "if"), (.leftParen, "("), (.identifier, "a"), (.rightParen, ")"),
    (.identifier, "b"), (.semicolon, ";"), (.elseKw, "else"), (.identifier, "c"), (.semicolon, ";"),
    (.elseKw, "else"), (.identifier, "d"), (.semicolon, ";"), (.rightBrace, "\x7d")].map
    fun (type, text) => ⟨type, some text, some 1, none⟩

/-- The second `else` is the first token that no declaration goes on with. -/
theorem declaration_found_first_strayElse : ∃ w w' e, Window.open? (.ofList strayElse) = .ok w ∧
    declaration 40 40 w = .error (.broken e) w' ∧ e.found.type = .elseKw ∧ w'.position = 10 ∧
    ∃ ts, w.Reads ts w' ∧ e.found = w'.current ∧ (∀ us, us <+: ts → Viable (typesOf us)) ∧
      ¬ Viable (typesOf ts ++ [e.found.type]) ∧
      (e.found.isEof = true → ¬ Derives (.symbol .declaration) (typesOf ts)) :=
  ⟨_, _, _, rfl, rfl, rfl, rfl, declaration_found_first 40 40 _ _ _ rfl (by decide)⟩

end Lox.Rule
