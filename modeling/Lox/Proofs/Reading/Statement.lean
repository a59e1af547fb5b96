import Lox.Proofs.Grammar.Statement
import Lox.Proofs.Reading.Expression
import Lox.Rule.Statement

/-!
# Reading statements

Most rules for statements and declarations go on after a keyword that was read before them;
`RecognizesAfter` says what they read together with it. An `else` after a statement decides what was
read: behind a phrase that marks an open `if` there is none (`Settled`). This is what a rule finds
out when it looks for an `else` and leaves the `if` without one.
-/

namespace Lox.Rule

open Grammar

variable {α : Type} {stops : List TokenType} {w v w' : Window}

/-- No `else` comes after a phrase in which an `if` is open. -/
def Settled (isOpen : Bool) (w : Window) : Prop := isOpen = true → w.current.type ≠ .elseKw

/-- Where no `if` is open it does not matter what comes. -/
theorem settled_false : Settled false w := fun h => Bool.noConfusion h

/-- A rule reads the statements of a language, whose phrases may have an open `if`. -/
structure RecognizesOpen (r : Rule Stmt) (L : Bool → Lang Stmt) : Prop where
  /-- What the rule reads is a phrase, and no `else` is left that belongs to it. -/
  sound : ∀ ⦃w s w'⦄, r w = .ok s w' →
    ∃ isOpen ts, w.Reads ts w' ∧ L isOpen ts s ∧ Settled isOpen w'
  /-- The rule reads a phrase that no `else` goes on with. -/
  complete : ∀ ⦃w w' : Window⦄ ⦃isOpen ts s⦄, L isOpen ts s → w.Reads ts w' → Settled isOpen w' →
    r w = .ok s w'

/-- A rule that goes on after a token of a type reads the phrases of a language, the token
included. -/
structure RecognizesAfter (type : TokenType) (r : Token → Rule α) (L : Bool → Lang α) : Prop where
  /-- What the rule reads is a phrase with the token in front. -/
  sound : ∀ ⦃t : Token⦄ ⦃w a w'⦄, t.type = type → r t w = .ok a w' →
    ∃ isOpen ts, w.Reads ts w' ∧ L isOpen (t :: ts) a ∧ Settled isOpen w'
  /-- The rule reads a phrase after its first token. -/
  complete : ∀ ⦃w w' : Window⦄ ⦃isOpen ts a⦄, L isOpen ts a → w.Reads ts w' → Settled isOpen w' →
    ∃ t v, t.type = type ∧ w.Reads [t] v ∧ r t v = .ok a w'

/-- Reading a token that comes and going on after it reads a phrase. -/
theorem RecognizesAfter.read_ok {type : TokenType} {r : Token → Rule α} {L : Bool → Lang α}
    (h : RecognizesAfter type r L) (notEof : type ≠ .eof) {a : α} (shown : w.current.type = type)
    (ok : (read >>= r) w = .ok a w') :
    ∃ isOpen ts, w.Reads ts w' ∧ L isOpen ts a ∧ Settled isOpen w' := by
  obtain ⟨t, v, isType, first, ok⟩ := read_bind_ok ok shown notEof
  obtain ⟨isOpen, ts, reads, phrase, settled⟩ := h.sound isType ok
  exact ⟨isOpen, t :: ts, first.append reads, phrase, settled⟩

/-- A phrase is read by reading its first token and going on after it. -/
theorem RecognizesAfter.read_of_reads {type : TokenType} {r : Token → Rule α} {L : Bool → Lang α}
    (h : RecognizesAfter type r L) {isOpen : Bool} {ts : List Token} {a : α}
    (phrase : L isOpen ts a) (reads : w.Reads ts w') (settled : Settled isOpen w') :
    w.current.type = type ∧ (read >>= r) w = .ok a w' := by
  obtain ⟨t, v, isType, first, ok⟩ := h.complete phrase reads settled
  refine ⟨?_, ?_⟩
  · rw [(Window.reads_singleton.1 first).2.1, isType]
  · rw [bind_of_ok (Rule.read_of_reads first), ok]

/-- A rule that always blames a token reads nothing. -/
theorem recognizesAfter_fail {type : TokenType} (cause : SyntaxCause) :
    RecognizesAfter type (fun _ => (fail cause : Rule α)) (fun _ => Nothing) where
  sound := fun _ _ _ _ _ ok => absurd ok fail_ne_ok
  complete := fun _ _ _ _ _ phrase => phrase.elim

/-- In front of a token that can be read its type is shown. -/
theorem current_of_reads {t : Token} {ts : List Token} (h : w.Reads (t :: ts) w') {type : TokenType}
    (shown : t.type = type) : w.current.type = type := by
  rw [(Window.reads_cons.1 h).2.1, shown]

/-- An expression is not gone on with by a token that is not among those which could. -/
theorem not_stop {type : TokenType} {t : Token} {ts : List Token} (h : w.Reads (t :: ts) w')
    (shown : t.type = type) (other : type ∉ stops) : w.current.type ∉ stops := by
  rw [current_of_reads h shown]
  exact other

/-! ## Parts of statements -/

section Parts

variable {β : Type} {r : Rule β} {L : Lang β} {w w' : Window} {message : String}

/-- What ends with a semicolon is a phrase and the semicolon. -/
theorem terminated_ok {f : β → α} {a : α} (h : Sound r L)
    (ok : (do let b ← r; let _ ← expect .semicolon message; return f b : Rule α) w = .ok a w') :
    ∃ ts b semicolon, a = f b ∧ L ts b ∧ semicolon.type = .semicolon ∧
      w.Reads (ts ++ [semicolon]) w' := by
  obtain ⟨b, v, first, rest⟩ := bind_ok ok
  obtain ⟨ts, reads, phrase⟩ := h first
  obtain ⟨semicolon, u, second, last⟩ := bind_ok rest
  obtain ⟨reads', isSemicolon⟩ := expect_ok second
  obtain ⟨rfl, rfl⟩ := pure_ok last
  exact ⟨ts, b, semicolon, rfl, phrase, isSemicolon, reads.append reads'⟩

/-- What can be read in front of a semicolon is read together with it. -/
theorem terminated_of_reads (f : β → α) {ts : List Token} {b : β} {semicolon : Token}
    (found : ∀ ⦃v : Window⦄, w.Reads ts v → v.current.type = .semicolon → r w = .ok b v)
    (isSemicolon : semicolon.type = .semicolon) (reads : w.Reads (ts ++ [semicolon]) w') :
    (do let b ← r; let _ ← expect .semicolon message; return f b : Rule α) w = .ok (f b) w' := by
  obtain ⟨v, first, second⟩ := Window.reads_append.1 reads
  rw [bind_of_ok (found first (current_of_reads second isSemicolon)),
    bind_of_ok (expect_of_reads second isSemicolon _)]
  rfl

/-- What stands between parentheses is a phrase and the two, and then comes the rest. -/
theorem parenthesized_ok {message' : String} {rest : β → Rule α} {a : α} (h : Sound r L)
    (ok : (do
      let _ ← expect .leftParen message
      let b ← r
      let _ ← expect .rightParen message'
      rest b : Rule α) w = .ok a w') :
    ∃ left ts b right v, left.type = .leftParen ∧ L ts b ∧ right.type = .rightParen ∧
      w.Reads (left :: (ts ++ [right])) v ∧ rest b v = .ok a w' := by
  obtain ⟨left, v₁, first, ok⟩ := bind_ok ok
  obtain ⟨reads₁, isLeft⟩ := expect_ok first
  obtain ⟨b, v₂, second, ok⟩ := bind_ok ok
  obtain ⟨ts, reads₂, phrase⟩ := h second
  obtain ⟨right, v₃, third, ok⟩ := bind_ok ok
  obtain ⟨reads₃, isRight⟩ := expect_ok third
  exact ⟨left, ts, b, right, v₃, isLeft, phrase, isRight,
    reads₁.append (reads₂.append reads₃), ok⟩

/-- A phrase between parentheses is read with the two, and then the rest is. -/
theorem parenthesized_of_reads {message' : String} (rest : β → Rule α) (h : Complete stops r L)
    (apart : .rightParen ∉ stops) {left right : Token} {ts us : List Token} {b : β}
    (isLeft : left.type = .leftParen) (phrase : L ts b) (isRight : right.type = .rightParen)
    (reads : w.Reads (left :: (ts ++ right :: us)) w') :
    ∃ v, v.Reads us w' ∧ (do
      let _ ← expect .leftParen message
      let b ← r
      let _ ← expect .rightParen message'
      rest b : Rule α) w = rest b v := by
  obtain ⟨v₁, first, reads⟩ := Window.reads_head.1 reads
  obtain ⟨v₂, second, reads⟩ := Window.reads_append.1 reads
  obtain ⟨v₃, third, after⟩ := Window.reads_head.1 reads
  refine ⟨v₃, after, ?_⟩
  rw [bind_of_ok (expect_of_reads first isLeft _),
    bind_of_ok (h phrase second (not_stop third isRight apart)),
    bind_of_ok (expect_of_reads third isRight _)]

end Parts

/-! ## Simple statements -/

section Simple

variable {expression : Rule Expr} {L : Lang Expr}

/-- An expression statement is read. -/
theorem recognizes_expressionStatement (h : Recognizes expressionStops expression L) :
    Recognizes [] (expressionStatement expression) (ExpressionStatement L) where
  sound := by
    intro w s w' ok
    obtain ⟨ts, e, semicolon, rfl, phrase, isSemicolon, reads⟩ := terminated_ok h.sound ok
    exact ⟨_, reads, .mk phrase isSemicolon⟩
  complete := by
    rintro w _ _ w' ⟨phrase, isSemicolon⟩ reads -
    refine terminated_of_reads Stmt.expression (fun v first last => ?_) isSemicolon reads
    exact h.complete phrase first (by rw [last]; decide)

/-- Reads what a variable starts with, if an equals sign announces it. -/
def initial (expression : Rule Expr) : Rule (Option Expr) :=
  accept [.equal] >>= (·.elim (pure none) fun _ => some <$> expression)

/-- A variable declaration is a name, its initializer and a semicolon. -/
theorem varDeclaration_eq (expression : Rule Expr) : varDeclaration expression = (do
    let name ← expect .identifier "Expect variable name."
    let initializer ← initial expression
    let _ ← expect .semicolon "Expect ';' after variable declaration."
    return .varDecl name initializer) := by
  refine congrArg (expect .identifier "Expect variable name." >>= ·) (funext fun name => ?_)
  rw [initial, bind_assoc]
  exact congrArg (accept [.equal] >>= ·) (funext fun found => by cases found <;> rfl)

/-- An equals sign and an expression are read, or nothing. -/
theorem sound_initial (h : Sound expression L) :
    Sound (initial expression) (Maybe (Initializer L)) := by
  intro w value w' ok
  obtain ⟨found, v, first, rest⟩ := bind_ok ok
  rcases accept_ok first (by decide) with ⟨rfl, rfl, -⟩ | ⟨equals, rfl, mem, reads⟩
  · obtain ⟨rfl, rfl⟩ := pure_ok rest
    exact ⟨[], .refl _, .none⟩
  · have isEquals : equals.type = .equal := by simpa using mem
    obtain ⟨e, second, rfl⟩ := map_ok rest
    obtain ⟨ts, reads', phrase⟩ := h second
    exact ⟨_, reads.append reads', .some (.mk isEquals phrase)⟩

/-- An equals sign and an expression are read, or nothing, before the semicolon. -/
theorem initial_of_reads (h : Recognizes expressionStops expression L) {ts : List Token}
    {value : Option Expr} (phrase : Maybe (Initializer L) ts value) (reads : w.Reads ts w')
    (last : w'.current.type = .semicolon) : initial expression w = .ok value w' := by
  cases phrase with
  | none =>
    obtain rfl := Window.reads_nil.1 reads
    rw [initial, bind_of_ok (accept_of_not_mem (by rw [last]; decide))]
    rfl
  | some phrase =>
    obtain ⟨isEquals, phrase⟩ := phrase
    obtain ⟨v, first, second⟩ := Window.reads_head.1 reads
    rw [initial, bind_of_ok (accept_of_reads first (by simp [isEquals]))]
    exact map_of_ok (h.complete phrase second (by rw [last]; decide))

/-- A variable declaration is read after `var`. -/
theorem recognizes_varDeclaration (h : Recognizes expressionStops expression L) :
    RecognizesAfter .varKw (fun _ => varDeclaration expression) (fun _ => VarDeclaration L) where
  sound := by
    intro t w s w' isVar ok
    rw [varDeclaration_eq] at ok
    obtain ⟨name, v, first, rest⟩ := bind_ok ok
    obtain ⟨reads, isName⟩ := expect_ok first
    obtain ⟨ts, value, semicolon, rfl, phrase, isSemicolon, reads'⟩ :=
      terminated_ok (sound_initial h.sound) rest
    exact ⟨false, _, reads.append reads', .mk isVar isName phrase isSemicolon, settled_false⟩
  complete := by
    rintro w w' isOpen _ _ ⟨isVar, isName, phrase, isSemicolon⟩ reads -
    obtain ⟨v₀, keyword, reads⟩ := Window.reads_head.1 reads
    obtain ⟨v₁, first, reads⟩ := Window.reads_head.1 reads
    refine ⟨_, v₀, isVar, keyword, ?_⟩
    rw [varDeclaration_eq, bind_of_ok (expect_of_reads first isName _)]
    refine terminated_of_reads (Stmt.varDecl _) (fun v second last => ?_) isSemicolon reads
    exact initial_of_reads h phrase second last

/-- A `print` statement is read after its keyword. -/
theorem recognizes_printStatement (h : Recognizes expressionStops expression L) :
    RecognizesAfter .printKw (fun _ => printStatement expression)
      (fun _ => PrintStatement L) where
  sound := by
    intro t w s w' isPrint ok
    obtain ⟨ts, e, semicolon, rfl, phrase, isSemicolon, reads⟩ := terminated_ok h.sound ok
    exact ⟨false, _, reads, .mk isPrint phrase isSemicolon, settled_false⟩
  complete := by
    rintro w w' isOpen _ _ ⟨isPrint, phrase, isSemicolon⟩ reads -
    obtain ⟨v₀, keyword, reads⟩ := Window.reads_head.1 reads
    refine ⟨_, v₀, isPrint, keyword, ?_⟩
    refine terminated_of_reads Stmt.print (fun v first last => ?_) isSemicolon reads
    exact h.complete phrase first (by rw [last]; decide)

/-- An expression that may be left out is read, or nothing. -/
theorem sound_optionalUntil (type : TokenType) (h : Sound expression L) :
    Sound (optionalUntil type expression) (Maybe L) := by
  intro w value w' ok
  rw [optionalUntil, comes_bind] at ok
  split at ok
  · obtain ⟨rfl, rfl⟩ := pure_ok ok
    exact ⟨[], .refl _, .none⟩
  · obtain ⟨e, found, rfl⟩ := map_ok ok
    obtain ⟨ts, reads, phrase⟩ := h found
    exact ⟨ts, reads, .some phrase⟩

/-- An expression that may be left out is read, or nothing, before the token that ends it. -/
theorem optionalUntil_of_reads (h : Recognizes expressionStops expression L)
    (begins : Begins expressionStarters L) {type : TokenType}
    (notStarter : type ∉ expressionStarters) (notStop : type ∉ expressionStops) {ts : List Token}
    {value : Option Expr} (phrase : Maybe L ts value) (reads : w.Reads ts w')
    (last : w'.current.type = type) :
    optionalUntil type expression w = .ok value w' := by
  rw [optionalUntil, comes_bind]
  cases phrase with
  | none =>
    obtain rfl := Window.reads_nil.1 reads
    simp only [last, beq_self_eq_true, ↓reduceIte]
    rfl
  | some phrase =>
    have other := beq_false_of_mem (current_of_begins begins phrase reads) notStarter
    simp only [other, Bool.false_eq_true, ↓reduceIte]
    exact map_of_ok (h.complete phrase reads (last ▸ notStop))

/-- A `return` statement is read after its keyword. -/
theorem recognizes_returnStatement (h : Recognizes expressionStops expression L)
    (begins : Begins expressionStarters L) :
    RecognizesAfter .returnKw (fun t => returnStatement t expression)
      (fun _ => ReturnStatement L) where
  sound := by
    intro t w s w' isReturn ok
    obtain ⟨ts, value, semicolon, rfl, phrase, isSemicolon, reads⟩ :=
      terminated_ok (sound_optionalUntil .semicolon h.sound) ok
    exact ⟨false, _, reads, .mk isReturn phrase isSemicolon, settled_false⟩
  complete := by
    rintro w w' isOpen _ _ ⟨isReturn, phrase, isSemicolon⟩ reads -
    obtain ⟨v₀, keyword, reads⟩ := Window.reads_head.1 reads
    refine ⟨_, v₀, isReturn, keyword, ?_⟩
    refine terminated_of_reads (Stmt.returns _) (fun v first last => ?_) isSemicolon reads
    exact optionalUntil_of_reads h begins (by decide) (by decide) phrase first last

end Simple

/-! ## Statements that govern others -/

section Governing

variable {expression : Rule Expr} {L : Lang Expr} {statement : Rule Stmt} {S : Bool → Lang Stmt}

/-- The first clause of a `for` loop is read. -/
theorem recognizes_forInitializer (h : Recognizes expressionStops expression L)
    (begins : Begins expressionStarters L) :
    Recognizes [] (forInitializer expression) (ForInitializer L) where
  sound := by
    intro w o w' ok
    rw [forInitializer, peek_run] at ok
    -- A semicolon by itself, a variable, or an expression.
    split at ok
    · obtain ⟨semicolon, v, isSemicolon, reads, last⟩ := read_bind_ok ok ‹_› (by decide)
      obtain ⟨rfl, rfl⟩ := pure_ok last
      exact ⟨_, reads, .none isSemicolon⟩
    · obtain ⟨keyword, v, isVar, first, rest⟩ := read_bind_ok ok ‹_› (by decide)
      obtain ⟨s, found, rfl⟩ := map_ok rest
      obtain ⟨-, ts, reads, phrase, -⟩ := (recognizes_varDeclaration h).sound isVar found
      exact ⟨_, first.append reads, .varDecl phrase⟩
    · obtain ⟨s, found, rfl⟩ := map_ok ok
      obtain ⟨ts, reads, phrase⟩ := (recognizes_expressionStatement h).sound found
      exact ⟨ts, reads, .expression phrase⟩
  complete := by
    intro w ts o w' phrase reads _
    cases phrase with
    | none isSemicolon =>
      rw [forInitializer, peek_bind, current_of_reads reads isSemicolon]
      dsimp only
      rw [bind_of_ok (Rule.read_of_reads reads)]
      rfl
    | varDecl phrase =>
      obtain ⟨keyword, v, isVar, first, found⟩ :=
        (recognizes_varDeclaration h).complete phrase reads settled_false
      rw [forInitializer, peek_bind, current_of_reads first isVar]
      dsimp only
      rw [bind_of_ok (Rule.read_of_reads first)]
      exact map_of_ok found
    | expression phrase =>
      have shown := current_of_begins (begins_expressionStatement begins) phrase reads
      rw [forInitializer, peek_run]
      split
      · simp_all [expressionStarters, primaryStarters]
      · simp_all [expressionStarters, primaryStarters]
      · exact map_of_ok
          ((recognizes_expressionStatement h).complete phrase reads List.not_mem_nil)

/-- A `for` loop is read after its keyword. -/
theorem recognizes_forStatement (h : Recognizes expressionStops expression L)
    (begins : Begins expressionStarters L) (hs : RecognizesOpen statement S) :
    RecognizesAfter .forKw (fun _ => forStatement expression statement) (ForStatement L S) where
  sound := by
    intro t w s w' isFor ok
    obtain ⟨left, v₁, first, ok⟩ := bind_ok ok
    obtain ⟨reads₁, isLeft⟩ := expect_ok first
    obtain ⟨initializer, v₂, second, ok⟩ := bind_ok ok
    obtain ⟨ts, reads₂, phrase₁⟩ :=
      (recognizes_forInitializer h begins).sound second
    obtain ⟨condition, v₃, third, ok⟩ := bind_ok ok
    obtain ⟨us, reads₃, phrase₂⟩ := sound_optionalUntil .semicolon h.sound third
    obtain ⟨semicolon, v₄, fourth, ok⟩ := bind_ok ok
    obtain ⟨reads₄, isSemicolon⟩ := expect_ok fourth
    obtain ⟨increment, v₅, fifth, ok⟩ := bind_ok ok
    obtain ⟨vs, reads₅, phrase₃⟩ := sound_optionalUntil .rightParen h.sound fifth
    obtain ⟨right, v₆, sixth, ok⟩ := bind_ok ok
    obtain ⟨reads₆, isRight⟩ := expect_ok sixth
    obtain ⟨body, v₇, seventh, ok⟩ := bind_ok ok
    obtain ⟨isOpen, xs, reads₇, phrase₄, settled⟩ := hs.sound seventh
    obtain ⟨rfl, rfl⟩ := pure_ok ok
    exact ⟨isOpen, _, reads₁.append (reads₂.append (reads₃.append (reads₄.append
      (reads₅.append (reads₆.append reads₇))))),
      .mk isFor isLeft phrase₁ phrase₂ isSemicolon phrase₃ isRight phrase₄, settled⟩
  complete := by
    rintro w w' isOpen _ _ ⟨isFor, isLeft, phrase₁, phrase₂, isSemicolon, phrase₃, isRight,
      phrase₄⟩ reads settled
    obtain ⟨v₀, keyword, reads⟩ := Window.reads_head.1 reads
    obtain ⟨v₁, first, reads⟩ := Window.reads_head.1 reads
    obtain ⟨v₂, second, reads⟩ := Window.reads_append.1 reads
    obtain ⟨v₃, third, reads⟩ := Window.reads_append.1 reads
    obtain ⟨v₄, fourth, reads⟩ := Window.reads_head.1 reads
    obtain ⟨v₅, fifth, reads⟩ := Window.reads_append.1 reads
    obtain ⟨v₆, sixth, seventh⟩ := Window.reads_head.1 reads
    -- Each clause is ended by the token behind it, which goes on with no expression.
    have end₁ := current_of_reads fourth isSemicolon
    have end₂ := current_of_reads sixth isRight
    refine ⟨_, v₀, isFor, keyword, ?_⟩
    rw [forStatement, bind_of_ok (expect_of_reads first isLeft _),
      bind_of_ok ((recognizes_forInitializer h begins).complete phrase₁ second
        List.not_mem_nil),
      bind_of_ok (optionalUntil_of_reads h begins (by decide) (by decide) phrase₂ third end₁),
      bind_of_ok (expect_of_reads fourth isSemicolon _),
      bind_of_ok (optionalUntil_of_reads h begins (by decide) (by decide) phrase₃ fifth end₂),
      bind_of_ok (expect_of_reads sixth isRight _),
      bind_of_ok (hs.complete phrase₄ seventh settled)]
    rfl

/-- An `if` statement is read after its keyword. The first branch of one with `else` is not open,
because the `else` comes after it. -/
theorem recognizes_ifStatement (h : Recognizes expressionStops expression L)
    (hs : RecognizesOpen statement S) :
    RecognizesAfter .ifKw (fun _ => ifStatement expression statement) (IfStatement L S) where
  sound := by
    intro t w s w' isIf ok
    obtain ⟨left, ts, condition, right, v, isLeft, phrase₁, isRight, reads, ok⟩ :=
      parenthesized_ok h.sound ok
    obtain ⟨thenBranch, v₁, first, ok⟩ := bind_ok ok
    obtain ⟨inner, us, reads₁, phrase₂, settled⟩ := hs.sound first
    obtain ⟨found, v₂, second, rest⟩ := bind_ok ok
    rcases accept_ok second (by decide) with ⟨rfl, rfl, other⟩ | ⟨keyword, rfl, mem, reads₂⟩
    · obtain ⟨rfl, rfl⟩ := pure_ok rest
      refine ⟨true, _, reads.append reads₁, ?_, fun _ => by simpa using other⟩
      simpa using IfStatement.ifThen isIf isLeft phrase₁ isRight phrase₂
    · have isElse : keyword.type = .elseKw := by simpa using mem
      -- A branch with an open `if` inside is not followed by `else`, but this one is.
      have closed : inner = false :=
        Bool.eq_false_iff.2 fun isOpen => settled isOpen (current_of_reads reads₂ isElse)
      subst closed
      obtain ⟨elseBranch, v₃, third, last⟩ := bind_ok rest
      obtain ⟨isOpen, vs, reads₃, phrase₃, settled'⟩ := hs.sound third
      obtain ⟨rfl, rfl⟩ := pure_ok last
      refine ⟨isOpen, _, reads.append (reads₁.append (reads₂.append reads₃)), ?_, settled'⟩
      simpa using IfStatement.ifElse isIf isLeft phrase₁ isRight phrase₂ isElse phrase₃
  complete := by
    intro w w' isOpen ts s phrase reads settled
    cases phrase with
    | ifThen isIf isLeft phrase₁ isRight phrase₂ =>
      obtain ⟨v₀, keyword, reads⟩ := Window.reads_head.1 reads
      obtain ⟨v₁, first, rest⟩ :=
        parenthesized_of_reads _ h.complete (by decide) isLeft phrase₁ isRight reads
      -- The whole is open itself, so no `else` comes behind it.
      have other : w'.current.type ≠ .elseKw := settled rfl
      refine ⟨_, v₀, isIf, keyword, rest.trans ?_⟩
      rw [bind_of_ok (hs.complete phrase₂ first fun _ => other),
        bind_of_ok (accept_of_not_mem (by simpa using other))]
      rfl
    | ifElse isIf isLeft phrase₁ isRight phrase₂ isElse phrase₃ =>
      obtain ⟨v₀, keyword, reads⟩ := Window.reads_head.1 reads
      obtain ⟨v₁, first, rest⟩ :=
        parenthesized_of_reads _ h.complete (by decide) isLeft phrase₁ isRight reads
      obtain ⟨v₂, second, third⟩ := Window.reads_append.1 first
      obtain ⟨v₃, fourth, fifth⟩ := Window.reads_head.1 third
      refine ⟨_, v₀, isIf, keyword, rest.trans ?_⟩
      rw [bind_of_ok (hs.complete phrase₂ second settled_false),
        bind_of_ok (accept_of_reads fourth (by simp [isElse]))]
      dsimp only
      rw [bind_of_ok (hs.complete phrase₃ fifth settled)]
      rfl

/-- A `while` loop is read after its keyword. -/
theorem recognizes_whileStatement (h : Recognizes expressionStops expression L)
    (hs : RecognizesOpen statement S) :
    RecognizesAfter .whileKw (fun _ => whileStatement expression statement)
      (WhileStatement L S) where
  sound := by
    intro t w s w' isWhile ok
    obtain ⟨left, ts, condition, right, v, isLeft, phrase₁, isRight, reads, ok⟩ :=
      parenthesized_ok h.sound ok
    obtain ⟨body, u, first, ok⟩ := bind_ok ok
    obtain ⟨isOpen, us, reads', phrase₂, settled⟩ := hs.sound first
    obtain ⟨rfl, rfl⟩ := pure_ok ok
    refine ⟨isOpen, _, reads.append reads', ?_, settled⟩
    simpa using WhileStatement.mk isWhile isLeft phrase₁ isRight phrase₂
  complete := by
    rintro w w' isOpen _ _ ⟨isWhile, isLeft, phrase₁, isRight, phrase₂⟩ reads settled
    obtain ⟨v₀, keyword, reads⟩ := Window.reads_head.1 reads
    obtain ⟨v₁, first, rest⟩ :=
      parenthesized_of_reads _ h.complete (by decide) isLeft phrase₁ isRight reads
    refine ⟨_, v₀, isWhile, keyword, rest.trans ?_⟩
    rw [bind_of_ok (hs.complete phrase₂ first settled)]
    rfl

end Governing

end Lox.Rule
