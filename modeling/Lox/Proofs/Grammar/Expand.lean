import Lox.Proofs.Grammar.Alphabet
import Lox.Proofs.Grammar.Loop

/-!
# Expanding loops in place

Wherever a `for` stands in a phrase, a whole loop stands there, and with the expansion of the loop
in its place the row is a phrase for the same tree, with three levels more. A row is said to be
`Expandable` if this holds of every `for` in it; the property goes along with a row that is put
together from others, so each production passes it on from what it nests (`Expands`).

Where a loop ends depends on what comes behind it, as an `else` there may belong to its body. So all
is said in front of the tokens that come behind the phrase.
-/

namespace Lox

open Grammar

/-- No `else` comes behind a phrase in which an `if` is open. -/
def NoElse (isOpen : Bool) (after : List Token) : Prop :=
  isOpen = true → ∀ t ∈ after.head?, t.type ≠ .elseKw

/-- Where no `if` is open it does not matter what comes. -/
theorem noElse_false (after : List Token) : NoElse false after := fun h => Bool.noConfusion h

/-- At the end no `else` comes. -/
theorem noElse_nil (isOpen : Bool) : NoElse isOpen [] := by
  rintro - t ⟨⟩

/-- The type of the next token tells that it is no `else`. -/
theorem noElse_cons {t : Token} {type : TokenType} (shown : t.type = type) (other : type ≠ .elseKw)
    (isOpen : Bool) (after : List Token) : NoElse isOpen (t :: after) := by
  rintro - u ⟨⟩
  rwa [shown]

/-- Fewer open `if`s ask for less. -/
theorem NoElse.mono {isOpen mark : Bool} {after : List Token} (h : NoElse isOpen after)
    (le : mark = true → isOpen = true) : NoElse mark after := fun isTrue => h (le isTrue)

namespace ForLoop

/-- The clauses of a loop are what the grammar has in their places. -/
structure Clauses (f : ForLoop) : Prop where
  initializer : ∃ n first, ForInitializer (Expression n) f.initializer first
  condition : ∃ n test, Maybe (Expression n) f.condition test
  increment : ∃ n last, Maybe (Expression n) f.increment last

/-- A loop stands in front of some tokens: its body is a statement that no `else` there goes on
with. -/
structure Stands (f : ForLoop) (after : List Token) : Prop extends f.Clauses where
  body : ∃ n isOpen s, Statement n isOpen f.body s ∧ NoElse isOpen after

end ForLoop

/-! ## Rows -/

/-- Every `for` in a row is the keyword of a loop, and with the expansion of the loop in its place
the row has some property. The tokens `after` come behind the row. -/
def Expandable (after : List Token) (P : List Token → Prop) (ts : List Token) : Prop :=
  ∀ pre keyword rest, ts = pre ++ keyword :: rest → keyword.type = .forKw →
    ∃ (f : ForLoop) (post : List Token), keyword :: rest = f.row ++ post ∧
      f.Stands (post ++ after) ∧ ∀ frame, P (pre ++ (f.expansion frame ++ post))

namespace Expandable

variable {after ts us : List Token} {P Q : List Token → Prop} {t : Token}

/-- Only the rows with an expansion in them matter. -/
theorem imp (h : Expandable after P ts) (le : ∀ us, P us → Q us) : Expandable after Q ts := by
  intro pre keyword rest eq isFor
  obtain ⟨f, post, split, stands, expanded⟩ := h pre keyword rest eq isFor
  exact ⟨f, post, split, stands, fun frame => le _ (expanded frame)⟩

/-- There is nothing to expand in a row without `for`. -/
theorem of_types {types : List TokenType} (h : ∀ t ∈ ts, t.type ∈ types) (other : .forKw ∉ types) :
    Expandable after P ts := by
  rintro pre keyword rest rfl isFor
  have mem := h keyword (List.mem_append_right _ List.mem_cons_self)
  rw [isFor] at mem
  exact absurd mem other

/-- Nor in the empty row. -/
theorem nil : Expandable after P [] := of_types (List.forall_mem_nil _) List.not_mem_nil

/-- A token in front that is no `for` stays where it is. -/
theorem cons {type : TokenType} (shown : t.type = type) (other : type ≠ .forKw)
    (h : Expandable after (fun us => P (t :: us)) ts) : Expandable after P (t :: ts) := by
  intro pre keyword rest eq isFor
  cases pre with
  | nil =>
    obtain ⟨rfl, -⟩ := List.cons.inj eq
    exact absurd (shown.symm.trans isFor) other
  | cons u pre =>
    obtain ⟨rfl, same⟩ := List.cons.inj eq
    exact h pre keyword rest same isFor

/-- Of two rows one is expanded and the other stays as it is. -/
theorem append (h : Expandable (us ++ after) (fun xs => P (xs ++ us)) ts)
    (h' : Expandable after (fun xs => P (ts ++ xs)) us) : Expandable after P (ts ++ us) := by
  intro pre keyword rest eq isFor
  -- The `for` stands in the second row or in the first one.
  rcases List.append_eq_append_iff.1 eq with ⟨mid, rfl, same⟩ | ⟨mid, rfl, same⟩
  · obtain ⟨f, post, split, stands, expanded⟩ := h' mid keyword rest same isFor
    exact ⟨f, post, split, stands, fun frame => by simpa using expanded frame⟩
  · cases mid with
    | nil =>
      obtain ⟨f, post, split, stands, expanded⟩ := h' [] keyword rest same.symm isFor
      exact ⟨f, post, split, stands, fun frame => by simpa using expanded frame⟩
    | cons u mid =>
      obtain ⟨rfl, rfl⟩ := List.cons.inj same
      obtain ⟨f, post, split, stands, expanded⟩ := h pre keyword mid rfl isFor
      refine ⟨f, post ++ us, ?_, by rwa [List.append_assoc], fun frame => ?_⟩
      · rw [← List.append_assoc, ← split]
        rfl
      · simpa using expanded frame

/-- A condition in parentheses stays as it is behind a keyword. -/
theorem governed {keyword left right : Token} {type : TokenType} (shown : keyword.type = type)
    (other : type ≠ .forKw) (isLeft : left.type = .leftParen)
    (condition : ∀ t ∈ ts, t.type ∈ expressionTypes) (isRight : right.type = .rightParen)
    (h : Expandable after (fun xs => P (keyword :: left :: (ts ++ right :: xs))) us) :
    Expandable after P (keyword :: left :: (ts ++ right :: us)) :=
  .cons shown other (.cons isLeft nofun (.append (.of_types condition (by decide))
    (.cons isRight nofun h)))

/-- The `for` in front is that of the loop. -/
theorem loop {f : ForLoop} (stands : f.Stands after) (expanded : ∀ frame, P (f.expansion frame))
    (h : Expandable after (fun us => P (f.keyword.1 :: us)) f.rest) :
    Expandable after P f.row := by
  intro pre keyword rest eq isFor
  cases pre with
  | nil =>
    refine ⟨f, [], ?_, stands, fun frame => ?_⟩
    · rw [List.append_nil, eq, List.nil_append]
    · rw [List.append_nil, List.nil_append]
      exact expanded frame
  | cons u pre =>
    obtain ⟨rfl, same⟩ := List.cons.inj eq
    exact h pre keyword rest same isFor

end Expandable

namespace Grammar

variable {α : Type}

/-! ## Languages -/

/-- Phrases of a language stay phrases in another, also with a loop expanded. No `else` may come
behind them. -/
structure Expands (L L' : Lang α) : Prop where
  keeps : Within L L'
  expandable : ∀ ⦃ts a⦄, L ts a → ∀ after, NoElse true after → Expandable after (L' · a) ts

/-- Statements stay statements, also with a loop expanded, and no `if` becomes open by it. -/
structure ExpandsOpen (S S' : Bool → Lang α) : Prop where
  keeps : ∀ isOpen, Within (S isOpen) (S' isOpen)
  expandable : ∀ ⦃isOpen ts s⦄, S isOpen ts s → ∀ after, NoElse isOpen after →
    Expandable after (fun us => ∃ mark, (mark = true → isOpen = true) ∧ S' mark us s) ts

/-- There is nothing to expand without phrases. -/
theorem expands_nothing (L : Lang α) : Expands Nothing L :=
  ⟨within_nothing L, fun _ _ phrase => phrase.elim⟩

section Rows

variable {L L' : Lang α} {types : List TokenType}

/-- Rows of phrases, if these do not start with `else`. -/
theorem expands_many (h : Expands L L') (begins : Begins types L) (other : .elseKw ∉ types) :
    Expands (Many L) (Many L') := by
  refine ⟨many_mono h.keeps, fun ts as phrase after noElse => ?_⟩
  induction phrase with
  | nil => exact .nil
  | @cons ts us a as first more ih =>
    -- Behind an item comes another one, which does not start with `else`, or what comes behind all.
    have next : NoElse true (us ++ after) := by
      cases more with
      | nil => exact noElse
      | cons first _ =>
        obtain ⟨t, vs, rfl, mem⟩ := begins first
        exact noElse_cons rfl (fun isElse => other (isElse ▸ mem)) _ _
    refine .append ?_ ?_
    · exact (h.expandable first _ next).imp fun xs phrase => .cons phrase (many_mono h.keeps more)
    · exact ih.imp fun xs phrase => .cons (h.keeps first) phrase

end Rows

/-! ## Statements and declarations -/

section Statements

variable {expression expression' : Lang Expr} {statement statement' : Bool → Lang Stmt}
  {declaration declaration' : Lang Stmt} {body body' : Lang (List Stmt)}

/-- Blocks. -/
theorem expands_block (h : Expands declaration declaration')
    (begins : Begins declarationStarters declaration) :
    Expands (Block declaration) (Block declaration') := by
  refine ⟨block_mono h.keeps, ?_⟩
  rintro _ _ ⟨isLeft, inner, isRight⟩ after -
  refine .cons isLeft nofun (.append ?_ (.cons isRight nofun .nil))
  exact ((expands_many h begins (by decide)).expandable inner _
    (noElse_cons isRight nofun _ _)).imp fun xs phrase => .mk isLeft phrase isRight

/-- Functions, which end in their body. -/
theorem expands_functionOver (h : Expands body body') :
    Expands (FunctionOver body) (FunctionOver body') := by
  refine ⟨functionOver_mono h.keeps, ?_⟩
  rintro _ _ ⟨isName, isLeft, params, isRight, inner⟩ after noElse
  have names : Over [.identifier, .comma] (Listed (Terminal .identifier)) :=
    over_listed (over_terminal (by decide)) (by decide)
  refine .cons isName nofun (.cons isLeft nofun (.append (.of_types (names params) (by decide))
    (.cons isRight nofun ?_)))
  exact (h.expandable inner _ noElse).imp fun xs phrase => .mk isName isLeft params isRight phrase

/-- `if` statements. In the first branch of one with `else` no `if` becomes open, so the `else`
stays where it belongs. -/
theorem expandable_ifStatement (he : Within expression expression')
    (made : Over expressionTypes expression) (hs : ExpandsOpen statement statement') {isOpen : Bool}
    {ts : List Token} {s : Stmt} (phrase : IfStatement expression statement isOpen ts s)
    {after : List Token} (noElse : NoElse isOpen after) :
    Expandable after (fun us => ∃ mark, (mark = true → isOpen = true) ∧
      IfStatement expression' statement' mark us s) ts := by
  cases phrase with
  | ifThen isIf isLeft condition isRight inner =>
    refine .governed isIf nofun isLeft (made condition) isRight ?_
    refine (hs.expandable inner _ (noElse.mono fun _ => rfl)).imp ?_
    rintro xs ⟨mark, -, phrase⟩
    exact ⟨true, fun _ => rfl, .ifThen isIf isLeft (he condition) isRight phrase⟩
  | ifElse isIf isLeft condition isRight inner isElse inner' =>
    refine .governed isIf nofun isLeft (made condition) isRight (.append ?_ (.cons isElse nofun ?_))
    · refine (hs.expandable inner _ (noElse_false _)).imp ?_
      rintro xs ⟨mark, le, phrase⟩
      -- The first branch is not open and does not become so.
      obtain rfl : mark = false := Bool.eq_false_iff.2 fun isTrue => Bool.noConfusion (le isTrue)
      exact ⟨_, id, .ifElse isIf isLeft (he condition) isRight phrase isElse (hs.keeps _ inner')⟩
    · refine (hs.expandable inner' _ noElse).imp ?_
      rintro xs ⟨mark, le, phrase⟩
      exact ⟨mark, le, .ifElse isIf isLeft (he condition) isRight (hs.keeps _ inner) isElse phrase⟩

/-- `while` loops, which end in their body. -/
theorem expandable_whileStatement (he : Within expression expression')
    (made : Over expressionTypes expression) (hs : ExpandsOpen statement statement') {isOpen : Bool}
    {ts : List Token} {s : Stmt} (phrase : WhileStatement expression statement isOpen ts s)
    {after : List Token} (noElse : NoElse isOpen after) :
    Expandable after (fun us => ∃ mark, (mark = true → isOpen = true) ∧
      WhileStatement expression' statement' mark us s) ts := by
  obtain ⟨isWhile, isLeft, condition, isRight, inner⟩ := phrase
  refine .governed isWhile nofun isLeft (made condition) isRight ?_
  refine (hs.expandable inner _ noElse).imp ?_
  rintro xs ⟨mark, le, phrase⟩
  exact ⟨mark, le, .mk isWhile isLeft (he condition) isRight phrase⟩

/-- `for` loops: the loop itself is expanded, or one in its body. -/
theorem expandable_forStatement {n : Nat} (hs : ExpandsOpen (Statement n) (Statement (n + 3)))
    {isOpen : Bool} {ts : List Token} {s : Stmt}
    (phrase : ForStatement (Expression n) (Statement n) isOpen ts s) {after : List Token}
    (noElse : NoElse isOpen after) :
    Expandable after (fun us => ∃ mark, (mark = true → isOpen = true) ∧
      Statement (n + 4) mark us s) ts := by
  have more : Within (Expression n) (Expression (n + 3)) := expression_mono (by omega)
  have made := over_expression n
  obtain @⟨keyword, left, semicolon, right, ts, us, vs, xs, _, _, _, _, isFor, isLeft, first,
    condition, isSemicolon, increment, isRight, inner⟩ := phrase
  -- The `for` in front is that of the loop itself; behind its clauses another one may stand in the
  -- body.
  refine .loop (f := ⟨⟨keyword, isFor⟩, ⟨left, isLeft⟩, ts, us, ⟨semicolon, isSemicolon⟩, vs,
    ⟨right, isRight⟩, xs⟩) ⟨⟨⟨n, _, first⟩, ⟨n, _, condition⟩, ⟨n, _, increment⟩⟩,
    ⟨n, isOpen, _, inner, noElse⟩⟩ (statement_expansion first condition increment inner) ?_
  refine .cons isLeft nofun (.append (.of_types (over_forInitializer made first) (by decide))
    (.append (.of_types (over_maybe made condition) (by decide)) (.cons isSemicolon nofun
    (.append (.of_types (over_maybe made increment) (by decide)) (.cons isRight nofun ?_)))))
  refine (hs.expandable inner _ noElse).imp ?_
  rintro xs ⟨mark, le, phrase⟩
  exact ⟨mark, le, .forLoop (.mk isFor isLeft (forInitializer_mono more first)
    (maybe_mono more condition) isSemicolon (maybe_mono more increment) isRight phrase)⟩

end Statements

/-- Statements. -/
theorem expandsOpen_succ {n : Nat} (hs : ExpandsOpen (Statement n) (Statement (n + 3)))
    (hd : Expands (Declaration n) (Declaration (n + 3))) :
    ExpandsOpen (Statement (n + 1)) (Statement (n + 4)) := by
  have more : Within (Expression n) (Expression (n + 3)) := expression_mono (by omega)
  have made := over_expression n
  refine ⟨fun isOpen => statement_mono (by omega) isOpen, fun isOpen ts s phrase after noElse => ?_⟩
  cases phrase with
  | expression phrase => exact .of_types (over_expressionStatement made phrase) (by decide)
  | forLoop phrase => exact expandable_forStatement hs phrase noElse
  | branch phrase =>
    refine (expandable_ifStatement more made hs phrase noElse).imp ?_
    exact fun us ⟨mark, le, phrase⟩ => ⟨mark, le, .branch phrase⟩
  | print phrase =>
    obtain ⟨isPrint, phrase, isSemicolon⟩ := phrase
    exact .cons isPrint nofun (.append (.of_types (made phrase) (by decide))
      (.cons isSemicolon nofun .nil))
  | returns phrase =>
    obtain ⟨isReturn, phrase, isSemicolon⟩ := phrase
    exact .cons isReturn nofun (.append (.of_types (over_maybe made phrase) (by decide))
      (.cons isSemicolon nofun .nil))
  | whileLoop phrase =>
    refine (expandable_whileStatement more made hs phrase noElse).imp ?_
    exact fun us ⟨mark, le, phrase⟩ => ⟨mark, le, .whileLoop phrase⟩
  | block phrase =>
    -- Behind a block anything may come, as its brace ends it.
    obtain ⟨isLeft, inner, isRight⟩ := phrase
    refine .cons isLeft nofun (.append ?_ (.cons isRight nofun .nil))
    exact ((expands_many hd (begins_declaration n) (by decide)).expandable inner _
      (noElse_cons isRight nofun _ _)).imp fun us phrase =>
        ⟨false, id, .block (.mk isLeft phrase isRight)⟩

/-- Declarations. -/
theorem expands_declarationOver {expression expression' : Lang Expr}
    {body body' : Lang (List Stmt)} {statement statement' : Bool → Lang Stmt}
    (he : Within expression expression') (made : Over expressionTypes expression)
    (hb : Expands body body') (hs : ExpandsOpen statement statement') :
    Expands (DeclarationOver expression body statement)
      (DeclarationOver expression' body' statement') := by
  refine ⟨declarationOver_mono he hb.keeps hs.keeps, fun ts s phrase after noElse => ?_⟩
  cases phrase with
  | classDecl phrase =>
    obtain ⟨isClass, isName, parent, isLeft, methods, isRight⟩ := phrase
    have names : Over [.less, .identifier] Parent := by
      rintro _ _ ⟨isLess, isName⟩
      exact forall_cons isLess (by decide) (forall_singleton isName (by decide))
    refine .cons isClass nofun (.cons isName nofun (.append
      (.of_types (over_maybe names parent) (by decide))
      (.cons isLeft nofun (.append ?_ (.cons isRight nofun .nil)))))
    have rows := expands_many (expands_functionOver hb) begins_functionOver (by decide)
    exact (rows.expandable methods _ (noElse_cons isRight nofun _ _)).imp fun us phrase =>
      .classDecl (.mk isClass isName parent isLeft phrase isRight)
  | function isFun phrase =>
    refine .cons isFun nofun ?_
    exact ((expands_functionOver hb).expandable phrase _ noElse).imp
      fun us phrase => .function isFun phrase
  | varDecl phrase => exact .of_types (over_varDeclaration made phrase) (by decide)
  | statement phrase =>
    refine (hs.expandable phrase _ (noElse.mono fun _ => rfl)).imp ?_
    exact fun us ⟨mark, _, phrase⟩ => .statement phrase

/-- Three levels more are enough for statements and declarations with a loop expanded. -/
theorem expands_statements (n : Nat) : ExpandsOpen (Statement n) (Statement (n + 3)) ∧
    Expands (Declaration n) (Declaration (n + 3)) := by
  induction n with
  | zero =>
    have none : ExpandsOpen (Statement 0) (Statement 3) :=
      ⟨fun isOpen => within_nothing _, fun _ _ _ phrase => phrase.elim⟩
    exact ⟨none, expands_declarationOver (expression_mono (Nat.zero_le 3)) (over_expression 0)
      (expands_nothing _) ⟨fun isOpen => within_nothing _, fun _ _ _ phrase => phrase.elim⟩⟩
  | succ n ih =>
    obtain ⟨statements, declarations⟩ := ih
    have statements' := expandsOpen_succ statements declarations
    exact ⟨statements', expands_declarationOver (expression_mono (by omega)) (over_expression _)
      (expands_block declarations (begins_declaration n)) statements'⟩

/-- Three levels more are enough for a program with a loop expanded. -/
theorem expands_program (n : Nat) : Expands (Program n) (Program (n + 3)) :=
  expands_many (expands_statements n).2 (begins_declaration n) (by decide)

end Grammar

end Lox
