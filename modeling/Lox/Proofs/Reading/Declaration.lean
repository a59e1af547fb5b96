import Lox.Proofs.Reading.Statement

/-!
# Reading declarations

Rows of declarations and methods, the functions and classes that hold them, and from these the rules
for statements and declarations with a limit on their nesting: `recognizes_statement` and
`recognizes_declaration` say that they read just the phrases of the grammar with as many levels.
-/

namespace Lox.Rule

open Grammar

variable {α : Type} {stops types : List TokenType} {w v w' : Window}

/-! ## Rows between braces -/

section Rows

variable {item : Rule α} {L : Lang α}

/-- A turn of a row: one more item, unless a closing brace or the end comes. -/
def itemsTurn (item : Rule α) (done : List α) : Rule (Option (List α)) := do
  let t ← peek
  if t.type == .rightBrace || t.isEof then return none
  else return some ((← item) :: done)

/-- A row is turns from no items on. -/
theorem items_eq (item : Rule α) : items item = List.reverse <$> loop (itemsTurn item) [] := rfl

/-- What a turn of a row reads: nothing, or one item. -/
theorem itemsTurn_ok (h : Sound item L) {done : List α} {o : Option (List α)}
    (turn : itemsTurn item done w = .ok o w') :
    (o = none ∧ w' = w) ∨ ∃ ts a, L ts a ∧ w.Reads ts w' ∧ o = some (a :: done) := by
  rw [itemsTurn, peek_run] at turn
  split at turn
  · exact .inl (pure_ok turn)
  · obtain ⟨a, v, first, last⟩ := bind_ok turn
    obtain ⟨ts, reads, phrase⟩ := h first
    obtain ⟨rfl, rfl⟩ := pure_ok last
    exact .inr ⟨ts, a, phrase, reads, rfl⟩

/-- The turns of a row read tokens. -/
theorem reads_itemsTurn (h : Sound item L) (begins : Begins types L) : Reads (itemsTurn item) :=
  reads_of_ne_nil fun s w s' w' turn => by
    rcases itemsTurn_ok h turn with ⟨none, -⟩ | ⟨ts, a, phrase, reads, -⟩
    · cases none
    · obtain ⟨t, us, rfl, -⟩ := begins phrase
      exact ⟨_, reads, List.cons_ne_nil t us⟩

/-- What the turns of a row read after some items is the rest of the row. -/
theorem sound_items (h : Sound item L) : Sound (items item) (Many L) := by
  intro w all w' ok
  obtain ⟨back, turns, rfl⟩ := map_ok ok
  -- The loop has the items that were read in reverse.
  obtain ⟨ts, reads, as, phrase, eq⟩ := sound_loop
    (fun done ts all => ∃ as, Many L ts as ∧ all = as.reverse ++ done)
    (fun done => ⟨[], .nil, rfl⟩)
    (fun done w w' turn => by
      rcases itemsTurn_ok h turn with ⟨-, rfl⟩ | ⟨_, _, _, _, none⟩
      · exact ⟨[], .refl _, [], .nil, rfl⟩
      · cases none)
    (fun done w done' w' turn => by
      rcases itemsTurn_ok h turn with ⟨none, -⟩ | ⟨ts, a, phrase, reads, eq⟩
      · cases none
      · cases eq
        refine ⟨ts, reads, ?_⟩
        rintro us all ⟨as, more, rfl⟩
        exact ⟨a :: as, .cons phrase more, by simp⟩)
    [] turns
  refine ⟨ts, reads, ?_⟩
  rw [eq, List.append_nil, List.reverse_reverse]
  exact phrase

/-- The items that are still to come are read by the turns, up to a closing brace. In front of each
item comes a token that it starts with, or the brace. -/
theorem loop_itemsTurn (h : Recognizes stops item L) (begins : Begins types L)
    (notEof : .eof ∉ types) (apart : ∀ t ∈ .rightBrace :: types, t ∉ stops)
    (notBrace : .rightBrace ∉ types) {ts : List Token} {as : List α} (phrase : Many L ts as)
    (done : List α) (reads : w.Reads ts w') (last : w'.current.type = .rightBrace) :
    w.current.type ∉ stops ∧
      loop (itemsTurn item) done w = .ok (as.reverse ++ done) w' := by
  have advances := reads_itemsTurn h.sound begins
  -- By induction on the items, from the last one, which the brace follows.
  induction phrase generalizing w done with
  | nil =>
    obtain rfl := Window.reads_nil.1 reads
    refine ⟨by rw [last]; exact apart _ (List.mem_cons_self ..), loop_stop advances ?_⟩
    rw [itemsTurn, peek_bind, last]
    rfl
  | @cons ts us a as phrase more ih =>
    obtain ⟨v, first, second⟩ := Window.reads_append.1 reads
    obtain ⟨follow, after⟩ := ih (a :: done) second
    have shown := current_of_begins begins phrase first
    refine ⟨apart _ (List.mem_cons_of_mem _ shown), ?_⟩
    rw [List.reverse_cons, List.append_assoc, List.singleton_append, ← after]
    refine loop_go advances ?_
    have other := beq_false_of_mem shown notBrace
    have other' : w.current.isEof = false := beq_false_of_mem shown notEof
    rw [itemsTurn, peek_bind, other, other']
    exact bind_of_ok (h.complete phrase first follow)

/-- A row and the closing brace after it are read. -/
theorem braced_ok (h : Sound item L) {message : String} {all : List α}
    (ok : braced item message w = .ok all w') :
    ∃ ts right, w.Reads (ts ++ [right]) w' ∧ right.type = .rightBrace ∧ Many L ts all := by
  obtain ⟨as, v, first, rest⟩ := bind_ok ok
  obtain ⟨ts, reads, phrase⟩ := sound_items h first
  obtain ⟨right, u, second, last⟩ := bind_ok rest
  obtain ⟨reads', isRight⟩ := expect_ok second
  obtain ⟨rfl, rfl⟩ := pure_ok last
  exact ⟨ts, right, reads.append reads', isRight, phrase⟩

/-- A row is read together with the closing brace after it. -/
theorem braced_of_reads (h : Recognizes stops item L) (begins : Begins types L)
    (notEof : .eof ∉ types) (apart : ∀ t ∈ .rightBrace :: types, t ∉ stops)
    (notBrace : .rightBrace ∉ types) {ts : List Token} {right : Token} {all : List α}
    (phrase : Many L ts all) (isRight : right.type = .rightBrace)
    (reads : w.Reads (ts ++ [right]) w') (message : String) :
    braced item message w = .ok all w' := by
  obtain ⟨v, first, second⟩ := Window.reads_append.1 reads
  have last := current_of_reads second isRight
  obtain ⟨-, turns⟩ := loop_itemsTurn h begins notEof apart notBrace phrase [] first last
  have row : items item w = .ok all v := by
    simpa [items_eq] using map_of_ok (f := List.reverse) turns
  rw [braced, bind_of_ok row, bind_of_ok (expect_of_reads second isRight _)]
  rfl

/-- A block of declarations is read after its opening brace. No declaration goes on with the start
of another one, nor with the closing brace. -/
theorem recognizes_block {declaration : Rule Stmt} {D : Lang Stmt}
    (h : Recognizes [.elseKw] declaration D) (begins : Begins declarationStarters D) :
    RecognizesAfter .leftBrace (fun _ => block declaration) (fun _ => Block D) where
  sound := by
    intro t w all w' isLeft ok
    obtain ⟨ts, right, reads, isRight, phrase⟩ := braced_ok h.sound ok
    exact ⟨false, _, reads, .mk isLeft phrase isRight, settled_false⟩
  complete := by
    rintro w w' isOpen _ _ ⟨isLeft, phrase, isRight⟩ reads -
    obtain ⟨v, first, second⟩ := Window.reads_head.1 reads
    exact ⟨_, v, isLeft, first,
      braced_of_reads h begins (by decide) (by decide) (by decide) phrase isRight second _⟩

end Rows

/-! ## Functions and classes -/

/-- A turn of a list of parameters: a comma and a name, if they come. -/
def parametersTurn (done : List Token) : Rule (Option (List Token)) := do
  match ← accept [.comma] with
  | some _ => return (← accept [.identifier]).map (· :: done)
  | none => return none

/-- Parameters are none, or one and then turns. -/
theorem parameters_eq : parameters = (do
    match ← accept [.identifier] with
    | none => return []
    | some first => List.reverse <$> loop parametersTurn [first]) := rfl

/-- What a turn of a list of parameters reads: nothing, a last comma, or a comma and a name. -/
theorem parametersTurn_ok : ListTurn parametersTurn (Terminal .identifier) := by
  intro done o w w' turn
  obtain ⟨found, v, first, rest⟩ := bind_ok turn
  rcases accept_ok first (by decide) with ⟨rfl, rfl, -⟩ | ⟨comma, rfl, mem, reads⟩
  · obtain ⟨rfl, rfl⟩ := pure_ok rest
    exact .inl ⟨rfl, [], .refl _, .nil⟩
  · have isComma : comma.type = .comma := by simpa using mem
    obtain ⟨found, u, second, last⟩ := bind_ok rest
    rcases accept_ok second (by decide) with ⟨rfl, rfl, -⟩ | ⟨name, rfl, mem, reads'⟩
    · obtain ⟨rfl, rfl⟩ := pure_ok last
      exact .inl ⟨rfl, [comma], reads, .comma isComma⟩
    · have isName : name.type = .identifier := by simpa using mem
      obtain ⟨rfl, rfl⟩ := pure_ok last
      exact .inr ⟨comma, [name], name, isComma, .mk isName, reads.append reads', rfl⟩

/-- The turns of a list of parameters read tokens. -/
theorem reads_parametersTurn : Reads parametersTurn :=
  parametersTurn_ok.reads

/-- What `parameters` reads is a list of names. -/
theorem sound_parameters : Sound parameters (Listed (Terminal .identifier)) := by
  intro w all w' ok
  rw [parameters_eq] at ok
  obtain ⟨found, v, first, rest⟩ := bind_ok ok
  rcases accept_ok first (by decide) with ⟨rfl, rfl, -⟩ | ⟨name, rfl, mem, reads⟩
  · obtain ⟨rfl, rfl⟩ := pure_ok rest
    exact ⟨[], .refl _, .nil⟩
  · have isName : name.type = .identifier := by simpa using mem
    obtain ⟨back, turns, rfl⟩ := map_ok rest
    obtain ⟨us, reads', names, more, rfl⟩ := parametersTurn_ok.sound_loop [name] turns
    refine ⟨[name] ++ us, reads.append reads', ?_⟩
    simpa using Listed.cons (.mk isName) more

/-- A turn reads the comma and the name that come. Nothing goes on with a name. -/
theorem listTurns_parameters : ListTurns [] parametersTurn (Terminal .identifier) where
  ok := parametersTurn_ok
  close := by
    intro done w last
    rw [parametersTurn, bind_of_ok (accept_of_not_mem (by rw [last]; decide))]
    rfl
  comma := by
    intro done comma w w' isComma reads last
    rw [parametersTurn, bind_of_ok (accept_of_reads reads (by simp [isComma]))]
    dsimp only
    rw [bind_of_ok (accept_of_not_mem (by rw [last]; decide))]
    rfl
  item := by
    rintro done comma _ name w v w' isComma first ⟨isName⟩ second -
    rw [parametersTurn, bind_of_ok (accept_of_reads first (by simp [isComma]))]
    exact bind_of_ok (accept_of_reads second (by simp [isName]))

/-- A list of names before the closing parenthesis is read. -/
theorem parameters_of_reads {ts names : List Token}
    (phrase : Listed (Terminal .identifier) ts names)
    (reads : w.Reads ts w') (last : w'.current.type = .rightParen) :
    parameters w = .ok names w' := by
  rw [parameters_eq]
  cases phrase with
  | nil =>
    obtain rfl := Window.reads_nil.1 reads
    rw [bind_of_ok (accept_of_not_mem (by rw [last]; decide))]
    rfl
  | @cons ts us name names phrase more =>
    obtain ⟨isName⟩ := phrase
    obtain ⟨v, first, rest⟩ := Window.reads_append.1 reads
    obtain ⟨-, turns⟩ := listTurns_parameters.loop (by decide) more [name] rest last
    rw [bind_of_ok (accept_of_reads first (by simp [isName]))]
    simpa using map_of_ok (f := List.reverse) turns

section Functions

variable {body : Rule (List Stmt)} {B : Lang (List Stmt)}

/-- A function is read from its name on. -/
theorem recognizes_function (role : String)
    (h : RecognizesAfter .leftBrace (fun _ => body) (fun _ => B)) :
    Recognizes [] (function role body) (FunctionOver B) where
  sound := by
    intro w f w' ok
    obtain ⟨name, v₁, first, ok⟩ := bind_ok ok
    obtain ⟨reads₁, isName⟩ := expect_ok first
    obtain ⟨left, v₂, second, ok⟩ := bind_ok ok
    obtain ⟨reads₂, isLeft⟩ := expect_ok second
    obtain ⟨params, v₃, third, ok⟩ := bind_ok ok
    obtain ⟨ts, reads₃, phrase⟩ := sound_parameters third
    obtain ⟨right, v₄, fourth, ok⟩ := bind_ok ok
    obtain ⟨reads₄, isRight⟩ := expect_ok fourth
    obtain ⟨brace, v₅, fifth, ok⟩ := bind_ok ok
    obtain ⟨reads₅, isBrace⟩ := expect_ok fifth
    obtain ⟨statements, v₆, sixth, ok⟩ := bind_ok ok
    obtain ⟨-, us, reads₆, phrase', -⟩ := h.sound isBrace sixth
    obtain ⟨rfl, rfl⟩ := pure_ok ok
    exact ⟨_, reads₁.append (reads₂.append (reads₃.append (reads₄.append
      (reads₅.append reads₆)))), .mk isName isLeft phrase isRight phrase'⟩
  complete := by
    rintro w _ _ w' ⟨isName, isLeft, phrase, isRight, phrase'⟩ reads -
    obtain ⟨v₁, first, reads⟩ := Window.reads_head.1 reads
    obtain ⟨v₂, second, reads⟩ := Window.reads_head.1 reads
    obtain ⟨v₃, third, reads⟩ := Window.reads_append.1 reads
    obtain ⟨v₄, fourth, reads⟩ := Window.reads_head.1 reads
    obtain ⟨brace, v₅, isBrace, fifth, sixth⟩ :=
      h.complete phrase' reads settled_false
    -- The closing parenthesis comes behind the names, so the last of them is not followed by a
    -- comma.
    have last := current_of_reads fourth isRight
    rw [function, bind_of_ok (expect_of_reads first isName _),
      bind_of_ok (expect_of_reads second isLeft _),
      bind_of_ok (parameters_of_reads phrase third last),
      bind_of_ok (expect_of_reads fourth isRight _), bind_of_ok (expect_of_reads fifth isBrace _),
      bind_of_ok sixth]
    rfl

/-- The name of a superclass is read, or nothing. -/
theorem sound_superclass : Sound superclass (Maybe Parent) := by
  intro w o w' ok
  obtain ⟨found, v, first, rest⟩ := bind_ok ok
  rcases accept_ok first (by decide) with ⟨rfl, rfl, -⟩ | ⟨less, rfl, mem, reads⟩
  · obtain ⟨rfl, rfl⟩ := pure_ok rest
    exact ⟨[], .refl _, .none⟩
  · have isLess : less.type = .less := by simpa using mem
    obtain ⟨name, second, rfl⟩ := map_ok rest
    obtain ⟨reads', isName⟩ := expect_ok second
    exact ⟨_, reads.append reads', .some (.mk isLess isName)⟩

/-- The name of a superclass is read, or nothing, before the brace that the class is opened by. -/
theorem superclass_of_reads {ts : List Token} {o : Option Token} (phrase : Maybe Parent ts o)
    (reads : w.Reads ts w') (last : w'.current.type = .leftBrace) :
    superclass w = .ok o w' := by
  cases phrase with
  | none =>
    obtain rfl := Window.reads_nil.1 reads
    rw [superclass, bind_of_ok (accept_of_not_mem (by rw [last]; decide))]
    rfl
  | some phrase =>
    obtain ⟨isLess, isName⟩ := phrase
    obtain ⟨v, first, second⟩ := Window.reads_head.1 reads
    rw [superclass, bind_of_ok (accept_of_reads first (by simp [isLess]))]
    exact map_of_ok (expect_of_reads second isName _)

/-- A class is read after its keyword. -/
theorem recognizes_classDeclaration (h : RecognizesAfter .leftBrace (fun _ => body) (fun _ => B)) :
    RecognizesAfter .classKw (fun _ => classDeclaration body) (fun _ => ClassDeclaration B) where
  sound := by
    intro t w s w' isClass ok
    obtain ⟨name, v₁, first, ok⟩ := bind_ok ok
    obtain ⟨reads₁, isName⟩ := expect_ok first
    obtain ⟨parent, v₂, second, ok⟩ := bind_ok ok
    obtain ⟨ts, reads₂, phrase⟩ := sound_superclass second
    obtain ⟨left, v₃, third, ok⟩ := bind_ok ok
    obtain ⟨reads₃, isLeft⟩ := expect_ok third
    obtain ⟨methods, v₄, fourth, ok⟩ := bind_ok ok
    obtain ⟨us, right, reads₄, isRight, phrase'⟩ :=
      braced_ok (recognizes_function "method" h).sound fourth
    obtain ⟨rfl, rfl⟩ := pure_ok ok
    exact ⟨false, _, reads₁.append (reads₂.append (reads₃.append reads₄)),
      .mk isClass isName phrase isLeft phrase' isRight, settled_false⟩
  complete := by
    rintro w w' isOpen _ _ ⟨isClass, isName, phrase, isLeft, phrase', isRight⟩ reads -
    obtain ⟨v₀, keyword, reads⟩ := Window.reads_head.1 reads
    obtain ⟨v₁, first, reads⟩ := Window.reads_head.1 reads
    obtain ⟨v₂, second, reads⟩ := Window.reads_append.1 reads
    obtain ⟨v₃, third, fourth⟩ := Window.reads_head.1 reads
    have last := current_of_reads third isLeft
    refine ⟨_, v₀, isClass, keyword, ?_⟩
    rw [classDeclaration, bind_of_ok (expect_of_reads first isName _),
      bind_of_ok (superclass_of_reads phrase second last),
      bind_of_ok (expect_of_reads third isLeft _),
      bind_of_ok (braced_of_reads (recognizes_function "method" h)
        begins_functionOver (by decide) (by decide) (by decide) phrase' isRight fourth _)]
    rfl

end Functions

/-! ## Statements and declarations -/

section Levels

variable {expression : Rule Expr} {L : Lang Expr} {statement declaration : Rule Stmt}
  {S : Bool → Lang Stmt} {D : Lang Stmt} {body : Rule (List Stmt)} {B : Lang (List Stmt)}

/-- A statement is read if its parts are. -/
theorem recognizes_statementOver (h : Recognizes expressionStops expression L)
    (begins : Begins expressionStarters L) (hs : RecognizesOpen statement S)
    (hd : RecognizesAfter .leftBrace (fun _ => block declaration) (fun _ => Block D)) :
    RecognizesOpen (statementOver expression statement declaration) (StatementOver L S D) where
  sound := by
    intro w s w' ok
    rw [statementOver, peek_run] at ok
    -- In the order of the rule: `for`, `if`, `print`, `return`, `while`, a block, and else an
    -- expression.
    split at ok
    · obtain ⟨isOpen, ts, reads, phrase, settled⟩ :=
        (recognizes_forStatement h begins hs).read_ok (by decide) ‹_› ok
      exact ⟨isOpen, ts, reads, .forLoop phrase, settled⟩
    · obtain ⟨isOpen, ts, reads, phrase, settled⟩ :=
        (recognizes_ifStatement h hs).read_ok (by decide) ‹_› ok
      exact ⟨isOpen, ts, reads, .branch phrase, settled⟩
    · obtain ⟨-, ts, reads, phrase, -⟩ :=
        (recognizes_printStatement h).read_ok (by decide) ‹_› ok
      exact ⟨false, ts, reads, .print phrase, settled_false⟩
    · obtain ⟨-, ts, reads, phrase, -⟩ :=
        (recognizes_returnStatement h begins).read_ok (by decide) ‹_› ok
      exact ⟨false, ts, reads, .returns phrase, settled_false⟩
    · obtain ⟨isOpen, ts, reads, phrase, settled⟩ :=
        (recognizes_whileStatement h hs).read_ok (by decide) ‹_› ok
      exact ⟨isOpen, ts, reads, .whileLoop phrase, settled⟩
    · obtain ⟨left, v, isLeft, first, rest⟩ := read_bind_ok ok ‹_› (by decide)
      obtain ⟨statements, found, rfl⟩ := map_ok rest
      obtain ⟨-, ts, reads, phrase, -⟩ := hd.sound isLeft found
      exact ⟨false, _, first.append reads, .block phrase, settled_false⟩
    · obtain ⟨ts, reads, phrase⟩ := (recognizes_expressionStatement h).sound ok
      exact ⟨false, ts, reads, .expression phrase, settled_false⟩
  complete := by
    intro w w' isOpen ts s phrase reads settled
    cases phrase with
    | expression phrase =>
      have shown := current_of_begins (begins_expressionStatement begins) phrase reads
      rw [statementOver, peek_run]
      split
      -- The six words and signs that start another statement start no expression.
      iterate 6 simp_all [expressionStarters, primaryStarters]
      exact (recognizes_expressionStatement h).complete phrase reads List.not_mem_nil
    | forLoop phrase =>
      obtain ⟨shown, ok⟩ :=
        (recognizes_forStatement h begins hs).read_of_reads phrase reads settled
      rw [statementOver, peek_bind, shown]
      exact ok
    | branch phrase =>
      obtain ⟨shown, ok⟩ := (recognizes_ifStatement h hs).read_of_reads phrase reads settled
      rw [statementOver, peek_bind, shown]
      exact ok
    | print phrase =>
      obtain ⟨shown, ok⟩ := (recognizes_printStatement h).read_of_reads phrase reads settled
      rw [statementOver, peek_bind, shown]
      exact ok
    | returns phrase =>
      obtain ⟨shown, ok⟩ :=
        (recognizes_returnStatement h begins).read_of_reads phrase reads settled
      rw [statementOver, peek_bind, shown]
      exact ok
    | whileLoop phrase =>
      obtain ⟨shown, ok⟩ := (recognizes_whileStatement h hs).read_of_reads phrase reads settled
      rw [statementOver, peek_bind, shown]
      exact ok
    | block phrase =>
      obtain ⟨left, v, isLeft, first, found⟩ := hd.complete phrase reads settled
      rw [statementOver, peek_bind, current_of_reads first isLeft]
      dsimp only
      rw [bind_of_ok (Rule.read_of_reads first)]
      exact map_of_ok found

/-- A declaration is read if its parts are. Whether an `if` is open in it does not show afterwards,
so it can only be told where no `else` comes. -/
theorem recognizes_declarationOver (h : Recognizes expressionStops expression L)
    (hb : RecognizesAfter .leftBrace (fun _ => body) (fun _ => B)) (hs : RecognizesOpen statement S)
    (begins : ∀ isOpen, Begins statementStarters (S isOpen)) :
    Recognizes [.elseKw] (declarationOver expression body statement) (DeclarationOver L B S) where
  sound := by
    intro w s w' ok
    rw [declarationOver, peek_run] at ok
    -- In the order of the rule: `class`, `fun`, `var`, and else a statement.
    split at ok
    · obtain ⟨-, ts, reads, phrase, -⟩ :=
        (recognizes_classDeclaration hb).read_ok (by decide) ‹_› ok
      exact ⟨ts, reads, .classDecl phrase⟩
    · obtain ⟨keyword, v, isFun, first, rest⟩ := read_bind_ok ok ‹_› (by decide)
      obtain ⟨f, found, rfl⟩ := map_ok rest
      obtain ⟨ts, reads, phrase⟩ := (recognizes_function _ hb).sound found
      exact ⟨_, first.append reads, .function isFun phrase⟩
    · obtain ⟨-, ts, reads, phrase, -⟩ :=
        (recognizes_varDeclaration h).read_ok (by decide) ‹_› ok
      exact ⟨ts, reads, .varDecl phrase⟩
    · obtain ⟨isOpen, ts, reads, phrase, -⟩ := hs.sound ok
      exact ⟨ts, reads, .statement phrase⟩
  complete := by
    intro w ts s w' phrase reads last
    cases phrase with
    | classDecl phrase =>
      obtain ⟨shown, ok⟩ := (recognizes_classDeclaration hb).read_of_reads
        phrase reads settled_false
      rw [declarationOver, peek_bind, shown]
      exact ok
    | function isFun phrase =>
      obtain ⟨v, first, second⟩ := Window.reads_head.1 reads
      rw [declarationOver, peek_bind, current_of_reads first isFun]
      dsimp only
      rw [bind_of_ok (Rule.read_of_reads first)]
      exact map_of_ok
        ((recognizes_function _ hb).complete phrase second List.not_mem_nil)
    | varDecl phrase =>
      obtain ⟨shown, ok⟩ := (recognizes_varDeclaration h).read_of_reads
        phrase reads settled_false
      rw [declarationOver, peek_bind, shown]
      exact ok
    | statement phrase =>
      have shown := current_of_begins (begins _) phrase reads
      rw [declarationOver, peek_run]
      split
      -- None of the three keywords starts a statement.
      iterate 3 simp_all [statementStarters, expressionStarters, primaryStarters]
      exact hs.complete phrase reads fun _ => by simpa using last

end Levels

/-- At every level statements and declarations are read. -/
theorem recognizes_statements (limit : Int) (n : Nat) :
    RecognizesOpen (statement limit n) (Statement n) ∧
      Recognizes [.elseKw] (declaration limit n) (Declaration n) := by
  induction n with
  | zero =>
    -- Without a level there is neither a statement nor one that is read; only classes, functions
    -- and variables could be declared, and they lack their parts.
    have fails : RecognizesOpen (fail (.tooDeep limit)) (fun _ => Nothing) :=
      ⟨fun _ _ _ ok => absurd ok fail_ne_ok, fun _ _ _ _ _ phrase => phrase.elim⟩
    exact ⟨fails, recognizes_declarationOver (recognizes_fail _) (recognizesAfter_fail _) fails
      fun _ _ _ phrase => phrase.elim⟩
  | succ n ih =>
    obtain ⟨statements, declarations⟩ := ih
    have blocks := recognizes_block declarations (begins_declaration n)
    have statements' := recognizes_statementOver (recognizes_expression limit n)
      (begins_expression n) statements blocks
    exact ⟨statements', recognizes_declarationOver (recognizes_expression limit (n + 1)) blocks
      statements' (begins_statement (n + 1))⟩

/-- A declaration with a limit on its levels is read. -/
theorem recognizes_declaration (limit : Int) (n : Nat) :
    Recognizes [.elseKw] (declaration limit n) (Declaration n) :=
  (recognizes_statements limit n).2

end Lox.Rule
