import Lox.Proofs.Grammar.Expression
import Lox.Proofs.Rule.Outcome
import Lox.Rule.Expression

/-!
# Reading expressions
-/

namespace Lox.Rule

open Grammar

variable {α : Type} {stops : List TokenType}

/-- A rule reads the phrases of a language: what it reads is one, and it finds every one that is not
followed by a token of some types, which would go on with it. -/
structure Recognizes (stops : List TokenType) (r : Rule α) (L : Lang α) : Prop where
  /-- What the rule reads is a phrase. -/
  sound : Sound r L
  /-- The rule reads a phrase that nothing goes on with. -/
  complete : Complete stops r L

/-- In front of a phrase a window shows the first of its tokens. -/
theorem current_of_begins {types : List TokenType} {L : Lang α} (h : Begins types L)
    {ts : List Token} {a : α} (phrase : L ts a) {w w' : Window} (reads : w.Reads ts w') :
    w.current.type ∈ types := by
  obtain ⟨t, us, rfl, mem⟩ := h phrase
  rw [(Window.reads_cons.1 reads).2.1]
  exact mem

/-- A type among some is none that is not among them. -/
theorem beq_false_of_mem {types : List TokenType} {t u : TokenType} (h : t ∈ types)
    (other : u ∉ types) : (t == u) = false :=
  beq_false_of_ne fun e => other (e ▸ h)

/-- The types of tokens that go on with an operand of binary operators. -/
def operandStops : List TokenType := [.leftParen, .dot]

/-- The types of tokens that go on with an expression. -/
def expressionStops : List TokenType :=
  [.equal, .orKw, .andKw, .bangEqual, .equalEqual, .greater, .greaterEqual, .less, .lessEqual,
   .minus, .plus, .slash, .star, .leftParen, .dot]

/-- A rule that always blames a token reads nothing. -/
theorem recognizes_fail (cause : SyntaxCause) :
    Recognizes stops (fail cause : Rule α) Nothing where
  sound := fun _ _ _ h => absurd h fail_ne_ok
  complete := fun _ _ _ _ h => h.elim

/-! ## Binary operators -/

/-- A turn of a chain: an operator and its right side, if one comes. -/
def chainTurn (tier : Tier) (operand : Rule Expr) (left : Expr) : Rule (Option Expr) := do
  match ← accept tier.operators with
  | some operator => return some (tier.join left operator (← operand))
  | none => return none

/-- A chain is an operand and then turns. -/
theorem chain_eq (tier : Tier) (operand : Rule Expr) :
    chain tier operand = operand >>= loop (chainTurn tier operand) := rfl

/-- What a turn of a chain reads: nothing, or an operator and an operand. -/
theorem chainTurn_ok {tier : Tier} {operand : Rule Expr} {L : Lang Expr}
    (notEof : TokenType.eof ∉ tier.operators) (h : Sound operand L) {left : Expr}
    {o : Option Expr} {w w' : Window} (turn : chainTurn tier operand left w = .ok o w') :
    (o = none ∧ w' = w) ∨ ∃ operator ts right, operator.type ∈ tier.operators ∧ L ts right ∧
      w.Reads (operator :: ts) w' ∧ o = some (tier.join left operator right) := by
  obtain ⟨found, v, first, rest⟩ := bind_ok turn
  rcases accept_ok first notEof with ⟨rfl, rfl, -⟩ | ⟨operator, rfl, mem, reads⟩
  · exact .inl (pure_ok rest)
  · obtain ⟨right, u, second, last⟩ := bind_ok rest
    obtain ⟨ts, reads', hright⟩ := h second
    obtain ⟨rfl, rfl⟩ := pure_ok last
    exact .inr ⟨operator, ts, right, mem, hright, reads.append reads', rfl⟩

/-- The turns of a chain read tokens. -/
theorem reads_chainTurn {tier : Tier} {operand : Rule Expr} {L : Lang Expr}
    (notEof : TokenType.eof ∉ tier.operators) (h : Sound operand L) :
    Reads (chainTurn tier operand) :=
  reads_of_ne_nil fun s w s' w' turn => by
    rcases chainTurn_ok notEof h turn with ⟨none, -⟩ | ⟨op, us, _, _, _, reads, -⟩
    · cases none
    · exact ⟨_, reads, by simp⟩

/-- From any left side on, the turns of a chain read the operations that are still to come. -/
theorem loop_chainTurn {tier : Tier} {operand : Rule Expr} {L : Lang Expr}
    (notEof : TokenType.eof ∉ tier.operators) (apart : ∀ t ∈ tier.operators, t ∉ stops)
    (h : Recognizes stops operand L) {left e : Expr} {ts : List Token}
    (ops : Operations tier.operators tier.join L left ts e) {w w' : Window} (reads : w.Reads ts w')
    (last : w'.current.type ∉ tier.operators ++ stops) :
    w.current.type ∉ stops ∧ loop (chainTurn tier operand) left w = .ok e w' := by
  have advances := reads_chainTurn notEof h.sound
  -- By induction on the operations, from the last one: an operand is read as it is because of what
  -- follows it.
  induction ops generalizing w with
  | nil e =>
    obtain rfl := Window.reads_nil.1 reads
    rw [List.mem_append, not_or] at last
    refine ⟨last.2, loop_stop advances ?_⟩
    rw [chainTurn, bind_of_ok (accept_of_not_mem last.1)]
    rfl
  | @cons left right e operator ts us mem hright more ih =>
    obtain ⟨v₁, first, rest⟩ := Window.reads_head.1 reads
    obtain ⟨v₂, second, third⟩ := Window.reads_append.1 rest
    obtain ⟨follow, after⟩ := ih third
    obtain ⟨-, shown, -⟩ := Window.reads_singleton.1 first
    refine ⟨shown ▸ apart _ mem, (loop_go advances ?_).trans after⟩
    rw [chainTurn, bind_of_ok (accept_of_reads first mem)]
    exact bind_of_ok (h.complete hright second follow)

/-- A chain reads operands with operators between them. -/
theorem recognizes_chain (tier : Tier) {operand : Rule Expr} {L : Lang Expr}
    (notEof : TokenType.eof ∉ tier.operators) (apart : ∀ t ∈ tier.operators, t ∉ stops)
    (h : Recognizes stops operand L) :
    Recognizes (tier.operators ++ stops) (chain tier operand)
      (Chain tier.operators tier.join L) where
  sound := by
    intro w e w' ok
    obtain ⟨left, v, first, rest⟩ := bind_ok ok
    obtain ⟨ts, reads, hleft⟩ := h.sound first
    obtain ⟨us, reads', ops⟩ := sound_loop (Operations tier.operators tier.join L)
      (fun e => .nil e)
      (fun s w w' turn => by
        rcases chainTurn_ok notEof h.sound turn with ⟨-, rfl⟩ | ⟨_, _, _, _, _, _, none⟩
        · exact ⟨[], .refl _, .nil s⟩
        · cases none)
      (fun s w s' w' turn => by
        rcases chainTurn_ok notEof h.sound turn with ⟨none, -⟩ | ⟨op, us, right, mem, hr, reads, e⟩
        · cases none
        · cases e
          exact ⟨_, reads, fun vs s'' more => .cons mem hr more⟩)
      left rest
    exact ⟨ts ++ us, reads.append reads', .mk hleft ops⟩
  complete := by
    intro w ts e w' phrase reads last
    obtain ⟨hleft, ops⟩ := phrase
    obtain ⟨v, first, rest⟩ := Window.reads_append.1 reads
    -- The operand in front is followed by an operator or by what ends the chain, and neither goes
    -- on with an operand.
    obtain ⟨follow, after⟩ := loop_chainTurn notEof apart h ops rest last
    rw [chain_eq, bind_of_ok (h.complete hleft first follow), after]

/-! ## Lists with commas -/

/-- Each turn of a list reads a comma and an item, or ends the list; a comma may come last. -/
def ListTurn (turn : List α → Rule (Option (List α))) (L : Lang α) : Prop :=
  ∀ ⦃done o w w'⦄, turn done w = .ok o w' →
    (o = none ∧ ∃ ts, w.Reads ts w' ∧ Further L ts []) ∨ ∃ comma ts a, comma.type = .comma ∧
      L ts a ∧ w.Reads (comma :: ts) w' ∧ o = some (a :: done)

section Lists

variable {turn : List α → Rule (Option (List α))} {L : Lang α}

/-- The turns of a list read tokens. -/
theorem ListTurn.reads (h : ListTurn turn L) : Reads turn :=
  reads_of_ne_nil fun s w s' w' step => by
    rcases h step with ⟨none, -⟩ | ⟨comma, ts, a, _, _, reads, -⟩
    · cases none
    · exact ⟨_, reads, List.cons_ne_nil comma ts⟩

/-- What the turns read after the first items is the rest of the list. -/
theorem ListTurn.sound_loop (h : ListTurn turn L) (done : List α) :
    Sound (loop turn done) (fun ts all => ∃ as, Further L ts as ∧ all = as.reverse ++ done) := by
  refine Rule.sound_loop (fun done ts all => ∃ as, Further L ts as ∧ all = as.reverse ++ done)
    ?_ ?_ ?_ done
  · exact fun done => ⟨[], .nil, rfl⟩
  · intro done w w' step
    rcases h step with ⟨-, ts, reads, comma⟩ | ⟨_, _, _, _, _, _, none⟩
    · exact ⟨ts, reads, [], comma, rfl⟩
    · cases none
  · intro done w done' w' step
    rcases h step with ⟨none, -⟩ | ⟨comma, ts, a, isComma, phrase, reads, eq⟩
    · cases none
    · cases eq
      refine ⟨_, reads, ?_⟩
      rintro us all ⟨as, more, rfl⟩
      exact ⟨a :: as, .cons isComma phrase more, by simp⟩

/-- The turns of a list before a closing parenthesis, where no item is gone on with by tokens of
some types. -/
structure ListTurns (stops : List TokenType) (turn : List α → Rule (Option (List α)))
    (L : Lang α) : Prop where
  /-- What a turn reads is a comma and an item, or nothing but a last comma. -/
  ok : ListTurn turn L
  /-- The parenthesis ends the list. -/
  close : ∀ ⦃done w⦄, w.current.type = .rightParen → turn done w = .ok none w
  /-- So does a comma in front of it. -/
  comma : ∀ ⦃done comma w w'⦄, comma.type = .comma → w.Reads [comma] w' →
    w'.current.type = .rightParen → turn done w = .ok none w'
  /-- A comma and an item are read. -/
  item : ∀ ⦃done comma ts a w v w'⦄, comma.type = .comma → w.Reads [comma] v → L ts a →
    v.Reads ts w' → w'.current.type ∉ stops → turn done w = .ok (some (a :: done)) w'

/-- From any items on, the turns read the items that are still to come before the closing
parenthesis. In front of each comes a comma, which goes on with no item. -/
theorem ListTurns.loop (h : ListTurns stops turn L) (apart : ∀ t ∈ [.comma, .rightParen], t ∉ stops)
    {ts : List Token} {as : List α} (more : Further L ts as) (done : List α) {w w' : Window}
    (reads : w.Reads ts w') (last : w'.current.type = .rightParen) :
    w.current.type ∉ stops ∧ Rule.loop turn done w = .ok (as.reverse ++ done) w' := by
  have advances := h.ok.reads
  have afterComma : ∀ {w v : Window} {comma : Token}, comma.type = .comma → w.Reads [comma] v →
      w.current.type ∉ stops := by
    intro w v comma isComma first
    rw [(Window.reads_singleton.1 first).2.1, isComma]
    exact apart .comma (by decide)
  -- By induction on the items that are to come. An item is read as it is because a comma or the
  -- parenthesis follows it.
  induction more generalizing w done with
  | nil =>
    obtain rfl := Window.reads_nil.1 reads
    exact ⟨last ▸ apart .rightParen (by decide), loop_stop advances (h.close last)⟩
  | comma isComma =>
    exact ⟨afterComma isComma reads, loop_stop advances (h.comma isComma reads last)⟩
  | @cons comma ts us a as isComma phrase more ih =>
    obtain ⟨v₁, first, rest⟩ := Window.reads_head.1 reads
    obtain ⟨v₂, second, third⟩ := Window.reads_append.1 rest
    obtain ⟨follow, after⟩ := ih (a :: done) third
    refine ⟨afterComma isComma first, ?_⟩
    rw [List.reverse_cons, List.append_assoc, List.singleton_append, ← after]
    exact loop_go advances (h.item isComma first phrase second follow)

end Lists

/-! ## Calls -/

/-- A turn of a list of arguments: a comma and an argument, if they come. -/
def argumentsTurn (expression : Rule Expr) (done : List Expr) : Rule (Option (List Expr)) := do
  match ← accept [.comma] with
  | some _ => if ← comes .rightParen then return none else return some ((← expression) :: done)
  | none => return none

/-- Arguments are none, or one and then turns. -/
theorem arguments_eq (expression : Rule Expr) :
    arguments expression = (do
      if ← comes .rightParen then return []
      else List.reverse <$> loop (argumentsTurn expression) [← expression]) := rfl

/-- What a turn of a list of arguments reads: nothing, a last comma, or a comma and an argument. -/
theorem argumentsTurn_ok {expression : Rule Expr} {L : Lang Expr} (h : Sound expression L) :
    ListTurn (argumentsTurn expression) L := by
  intro done o w w' turn
  obtain ⟨found, v, first, rest⟩ := bind_ok turn
  rcases accept_ok first (by decide) with ⟨rfl, rfl, -⟩ | ⟨comma, rfl, mem, reads⟩
  · obtain ⟨rfl, rfl⟩ := pure_ok rest
    exact .inl ⟨rfl, [], .refl _, .nil⟩
  · have isComma : comma.type = .comma := by simpa using mem
    dsimp only at rest
    rw [comes_bind] at rest
    split at rest
    · obtain ⟨rfl, rfl⟩ := pure_ok rest
      exact .inl ⟨rfl, [comma], reads, .comma isComma⟩
    · obtain ⟨e, u, second, last⟩ := bind_ok rest
      obtain ⟨ts, reads', phrase⟩ := h second
      obtain ⟨rfl, rfl⟩ := pure_ok last
      exact .inr ⟨comma, ts, e, isComma, phrase, reads.append reads', rfl⟩

/-- The turns of a list of arguments read tokens. -/
theorem reads_argumentsTurn {expression : Rule Expr} {L : Lang Expr} (h : Sound expression L) :
    Reads (argumentsTurn expression) :=
  (argumentsTurn_ok h).reads

/-- What `arguments` reads is a list of arguments. -/
theorem sound_arguments {expression : Rule Expr} {L : Lang Expr} (h : Sound expression L) :
    Sound (arguments expression) (Listed L) := by
  intro w all w' ok
  rw [arguments_eq, comes_bind] at ok
  split at ok
  · obtain ⟨rfl, rfl⟩ := pure_ok ok
    exact ⟨[], .refl _, .nil⟩
  · obtain ⟨e, v, first, rest⟩ := bind_ok ok
    obtain ⟨ts, reads, phrase⟩ := h first
    obtain ⟨back, turns, rfl⟩ := map_ok rest
    obtain ⟨us, reads', es, more, rfl⟩ := (argumentsTurn_ok h).sound_loop [e] turns
    refine ⟨ts ++ us, reads.append reads', ?_⟩
    simpa using Listed.cons phrase more

/-- A turn reads the comma and the argument that come. The closing parenthesis starts no
expression, so a turn does not take an argument for the end of the list. -/
theorem listTurns_arguments {expression : Rule Expr} {L : Lang Expr}
    (h : Recognizes expressionStops expression L) (begins : Begins expressionStarters L) :
    ListTurns expressionStops (argumentsTurn expression) L where
  ok := argumentsTurn_ok h.sound
  close := by
    intro done w last
    rw [argumentsTurn, bind_of_ok (accept_of_not_mem (by rw [last]; decide))]
    rfl
  comma := by
    intro done comma w w' isComma reads last
    rw [argumentsTurn, bind_of_ok (accept_of_reads reads (by simp [isComma]))]
    simp only [comes_bind, last]
    rfl
  item := by
    intro done comma ts e w v w' isComma first phrase second follow
    have other : (v.current.type == .rightParen) = false :=
      beq_false_of_mem (current_of_begins begins phrase second) (by decide)
    rw [argumentsTurn, bind_of_ok (accept_of_reads first (by simp [isComma]))]
    simp only [comes_bind, other]
    exact bind_of_ok (h.complete phrase second follow)

/-- A list of arguments before the closing parenthesis is read. -/
theorem arguments_of_reads {expression : Rule Expr} {L : Lang Expr}
    (h : Recognizes expressionStops expression L) (begins : Begins expressionStarters L)
    {ts : List Token} {es : List Expr} (phrase : Listed L ts es) {w w' : Window}
    (reads : w.Reads ts w') (last : w'.current.type = .rightParen) :
    arguments expression w = .ok es w' := by
  rw [arguments_eq, comes_bind]
  cases phrase with
  | nil =>
    obtain rfl := Window.reads_nil.1 reads
    simp only [last]
    rfl
  | @cons ts us e es phrase more =>
    obtain ⟨v, first, rest⟩ := Window.reads_append.1 reads
    obtain ⟨follow, turns⟩ :=
      (listTurns_arguments h begins).loop (by decide) more [e] rest last
    have other : (w.current.type == .rightParen) = false :=
      beq_false_of_mem (current_of_begins begins phrase first) (by decide)
    simp only [other, Bool.false_eq_true, ↓reduceIte]
    rw [bind_of_ok (h.complete phrase first follow)]
    simpa using map_of_ok (f := List.reverse) turns

/-- A turn of trailers: the arguments of a call or the name of a property, if they come. -/
def trailersTurn (expression : Rule Expr) (e : Expr) : Rule (Option Expr) := do
  match (← peek).type with
  | .leftParen =>
    let _ ← read
    let args ← arguments expression
    let paren ← expect .rightParen "Expect ')' after arguments."
    return some (.call e paren args)
  | .dot =>
    let _ ← read
    let name ← expect .identifier "Expect property name after '.'."
    return some (.get e name)
  | _ => return none

/-- Trailers are turns. -/
theorem trailers_eq (expression : Rule Expr) (e : Expr) :
    trailers expression e = loop (trailersTurn expression) e := rfl

/-- What a turn of trailers reads: nothing, or one trailer, so that trailers after it are trailers
with it in front. -/
theorem trailersTurn_ok {expression : Rule Expr} {L : Lang Expr} (h : Sound expression L)
    {e : Expr} {o : Option Expr} {w w' : Window} (turn : trailersTurn expression e w = .ok o w') :
    (o = none ∧ w' = w) ∨ ∃ e' ts, ts ≠ [] ∧ w.Reads ts w' ∧ o = some e' ∧
      ∀ us e'', Trailers L e' us e'' → Trailers L e (ts ++ us) e'' := by
  rw [trailersTurn, peek_run] at turn
  -- A call, a property, or neither.
  split at turn
  · obtain ⟨left, v, isLeft, first, turn⟩ := read_bind_ok turn ‹_› (by decide)
    obtain ⟨args, u, second, turn⟩ := bind_ok turn
    obtain ⟨ts, reads, phrase⟩ := sound_arguments h second
    obtain ⟨right, x, third, turn⟩ := bind_ok turn
    obtain ⟨reads', isRight⟩ := expect_ok third
    obtain ⟨rfl, rfl⟩ := pure_ok turn
    refine .inr ⟨_, [left] ++ (ts ++ [right]), by simp, first.append (reads.append reads'), rfl, ?_⟩
    intro us e'' more
    simpa using Trailers.call isLeft phrase isRight more
  · obtain ⟨dot, v, isDot, first, turn⟩ := read_bind_ok turn ‹_› (by decide)
    obtain ⟨name, u, second, turn⟩ := bind_ok turn
    obtain ⟨reads, isName⟩ := expect_ok second
    obtain ⟨rfl, rfl⟩ := pure_ok turn
    exact .inr ⟨_, [dot] ++ [name], by simp, first.append reads, rfl,
      fun us e'' more => .get isDot isName more⟩
  · exact .inl (pure_ok turn)

/-- The turns of trailers read tokens. -/
theorem reads_trailersTurn {expression : Rule Expr} {L : Lang Expr} (h : Sound expression L) :
    Reads (trailersTurn expression) :=
  reads_of_ne_nil fun s w s' w' turn => by
    rcases trailersTurn_ok h turn with ⟨none, -⟩ | ⟨_, ts, some, reads, -, -⟩
    · cases none
    · exact ⟨ts, reads, some⟩

/-- Trailers are read after the expression that they belong to. -/
theorem recognizes_trailers {expression : Rule Expr} {L : Lang Expr}
    (h : Recognizes expressionStops expression L) (begins : Begins expressionStarters L)
    (e : Expr) :
    Recognizes operandStops (trailers expression e) (Trailers L e) where
  sound := by
    refine sound_loop (Trailers L) (fun e => .nil e) ?_ ?_ e
    · intro e w w' turn
      rcases trailersTurn_ok h.sound turn with ⟨-, rfl⟩ | ⟨_, _, _, _, none, -⟩
      · exact ⟨[], .refl _, .nil e⟩
      · cases none
    · intro e w e' w' turn
      rcases trailersTurn_ok h.sound turn with ⟨none, -⟩ | ⟨_, ts, -, reads, eq, keep⟩
      · cases none
      · cases eq
        exact ⟨ts, reads, keep⟩
  complete := by
    have advances := reads_trailersTurn h.sound
    intro w ts e' w' phrase reads last
    rw [trailers_eq]
    -- By induction on the trailers. Each one is a turn of the loop, and it makes the expression
    -- that the next one belongs to.
    induction phrase generalizing w with
    | nil e =>
      obtain rfl := Window.reads_nil.1 reads
      refine loop_stop advances ?_
      rw [trailersTurn, peek_run]
      split
      · simp_all [operandStops]
      · simp_all [operandStops]
      · rfl
    | @call callee e left right ts us args isLeft phrase isRight more ih =>
      obtain ⟨v₁, first, rest⟩ := Window.reads_head.1 reads
      obtain ⟨v₂, second, rest⟩ := Window.reads_append.1 rest
      obtain ⟨v₃, third, fourth⟩ := Window.reads_head.1 rest
      have shown : w.current.type = .leftParen := (Window.reads_singleton.1 first).2.1 ▸ isLeft
      have close : v₂.current.type = .rightParen := (Window.reads_singleton.1 third).2.1 ▸ isRight
      refine (loop_go advances ?_).trans (ih fourth)
      rw [trailersTurn, peek_bind, shown]
      dsimp only
      rw [bind_of_ok (read_of_reads first),
        bind_of_ok (arguments_of_reads h begins phrase second close),
        bind_of_ok (expect_of_reads third isRight _)]
      rfl
    | @get object e dot name ts isDot isName more ih =>
      obtain ⟨v₁, first, rest⟩ := Window.reads_head.1 reads
      obtain ⟨v₂, second, third⟩ := Window.reads_head.1 rest
      have shown : w.current.type = .dot := (Window.reads_singleton.1 first).2.1 ▸ isDot
      refine (loop_go advances ?_).trans (ih third)
      rw [trailersTurn, peek_bind, shown]
      dsimp only
      rw [bind_of_ok (read_of_reads first), bind_of_ok (expect_of_reads second isName _)]
      rfl

/-! ## Operands -/

/-- A rule that reads one token is the phrase of that token. -/
theorem single_ok {f : Token → α} {a : α} {type : TokenType} {w w' : Window}
    (ok : (do return f (← read) : Rule α) w = .ok a w') (shown : w.current.type = type)
    (notEof : type ≠ .eof) : ∃ t, a = f t ∧ t.type = type ∧ w.Reads [t] w' := by
  obtain ⟨t, v, isType, first, rest⟩ := read_bind_ok ok shown notEof
  obtain ⟨rfl, rfl⟩ := pure_ok rest
  exact ⟨t, rfl, isType, first⟩

/-- What is read as a literal, a name or an expression in parentheses is one. -/
theorem sound_primary {expression : Rule Expr} {L : Lang Expr} (h : Sound expression L) :
    Sound (primary expression) (Primary L) := by
  intro w e w' ok
  rw [primary, peek_run] at ok
  -- In the order of the rule; all but `super` and an expression in parentheses are one token.
  split at ok
  · obtain ⟨t, rfl, shown, reads⟩ := single_ok ok ‹_› (by decide)
    exact ⟨[t], reads, .false shown⟩
  · obtain ⟨t, rfl, shown, reads⟩ := single_ok ok ‹_› (by decide)
    exact ⟨[t], reads, .true shown⟩
  · obtain ⟨t, rfl, shown, reads⟩ := single_ok ok ‹_› (by decide)
    exact ⟨[t], reads, .nil shown⟩
  · obtain ⟨t, rfl, shown, reads⟩ := single_ok ok ‹_› (by decide)
    exact ⟨[t], reads, .number shown⟩
  · obtain ⟨t, rfl, shown, reads⟩ := single_ok ok ‹_› (by decide)
    exact ⟨[t], reads, .string shown⟩
  · obtain ⟨t, rfl, shown, reads⟩ := single_ok ok ‹_› (by decide)
    exact ⟨[t], reads, .this shown⟩
  · obtain ⟨keyword, v, shown, first, ok⟩ := read_bind_ok ok ‹_› (by decide)
    obtain ⟨dot, u, second, ok⟩ := bind_ok ok
    obtain ⟨reads, isDot⟩ := expect_ok second
    obtain ⟨method, x, third, ok⟩ := bind_ok ok
    obtain ⟨reads', isMethod⟩ := expect_ok third
    obtain ⟨rfl, rfl⟩ := pure_ok ok
    exact ⟨_, first.append (reads.append reads'), .super shown isDot isMethod⟩
  · obtain ⟨t, rfl, shown, reads⟩ := single_ok ok ‹_› (by decide)
    exact ⟨[t], reads, .named shown⟩
  · obtain ⟨left, v, shown, first, ok⟩ := read_bind_ok ok ‹_› (by decide)
    obtain ⟨inner, u, second, ok⟩ := bind_ok ok
    obtain ⟨ts, reads, phrase⟩ := h second
    obtain ⟨right, x, third, ok⟩ := bind_ok ok
    obtain ⟨reads', isRight⟩ := expect_ok third
    obtain ⟨rfl, rfl⟩ := pure_ok ok
    exact ⟨_, first.append (reads.append reads'), .grouping shown phrase isRight⟩
  · exact absurd ok fail_ne_ok

/-- A literal, a name or an expression in parentheses is read. -/
theorem recognizes_primary {expression : Rule Expr} {L : Lang Expr}
    (h : Recognizes expressionStops expression L) :
    Recognizes [] (primary expression) (Primary L) where
  sound := sound_primary h.sound
  complete := by
    intro w ts e w' phrase reads _
    have single : ∀ {t : Token}, w.Reads [t] w' → w.current.type = t.type := fun reads =>
      (Window.reads_singleton.1 reads).2.1 ▸ rfl
    rw [primary, peek_bind]
    cases phrase with
    | false shown | true shown | nil shown | number shown | string shown | this shown
    | named shown =>
      rw [single reads, shown]
      exact bind_of_ok (read_of_reads reads)
    | @super keyword dot method shown isDot isMethod =>
      obtain ⟨v₁, first, rest⟩ := Window.reads_head.1 reads
      obtain ⟨v₂, second, third⟩ := Window.reads_head.1 rest
      rw [(Window.reads_singleton.1 first).2.1, shown]
      dsimp only
      rw [bind_of_ok (read_of_reads first), bind_of_ok (expect_of_reads second isDot _),
        bind_of_ok (expect_of_reads third isMethod _)]
      rfl
    | @grouping left right ts e shown phrase isRight =>
      obtain ⟨v₁, first, rest⟩ := Window.reads_head.1 reads
      obtain ⟨v₂, second, third⟩ := Window.reads_append.1 rest
      have close : v₂.current.type ∉ expressionStops := by
        rw [(Window.reads_singleton.1 third).2.1, isRight]
        decide
      rw [(Window.reads_singleton.1 first).2.1, shown]
      dsimp only
      rw [bind_of_ok (read_of_reads first), bind_of_ok (h.complete phrase second close),
        bind_of_ok (expect_of_reads third isRight _)]
      rfl

/-- A call is read. -/
theorem recognizes_call {expression : Rule Expr} {L : Lang Expr}
    (h : Recognizes expressionStops expression L) (begins : Begins expressionStarters L) :
    Recognizes operandStops (call expression) (Call L) where
  sound := by
    intro w e w' ok
    obtain ⟨e', v, first, rest⟩ := bind_ok ok
    obtain ⟨ts, reads, phrase⟩ := (recognizes_primary h).sound first
    obtain ⟨us, reads', more⟩ := (recognizes_trailers h begins e').sound rest
    exact ⟨ts ++ us, reads.append reads', .mk phrase more⟩
  complete := by
    rintro w _ e' w' ⟨phrase, more⟩ reads last
    obtain ⟨v, first, rest⟩ := Window.reads_append.1 reads
    rw [call, bind_of_ok ((recognizes_primary h).complete phrase first List.not_mem_nil)]
    exact (recognizes_trailers h begins _).complete more rest last

/-- An operand of binary operators is read. -/
theorem recognizes_unaryOver {deeper expression : Rule Expr} {D L : Lang Expr}
    (hd : Recognizes operandStops deeper D) (h : Recognizes expressionStops expression L)
    (begins : Begins expressionStarters L) :
    Recognizes operandStops (unaryOver deeper expression) (UnaryOver D L) where
  sound := by
    intro w e w' ok
    obtain ⟨found, v, first, rest⟩ := bind_ok ok
    rcases accept_ok first (by decide) with ⟨rfl, rfl, -⟩ | ⟨operator, rfl, mem, reads⟩
    · obtain ⟨ts, reads, phrase⟩ := (recognizes_call h begins).sound rest
      exact ⟨ts, reads, .call phrase⟩
    · obtain ⟨right, u, second, last⟩ := bind_ok rest
      obtain ⟨ts, reads', phrase⟩ := hd.sound second
      obtain ⟨rfl, rfl⟩ := pure_ok last
      exact ⟨operator :: ts, reads.append reads', .operator mem phrase⟩
  complete := by
    intro w ts e w' phrase reads last
    cases phrase with
    | @operator operator ts e mem phrase =>
      obtain ⟨v, first, rest⟩ := Window.reads_head.1 reads
      have found : operator.type ∈ unaryOperators := mem
      rw [unaryOver, bind_of_ok (accept_of_reads first found)]
      dsimp only
      rw [bind_of_ok (hd.complete phrase rest last)]
      rfl
    | call phrase =>
      have shown := current_of_begins (begins_call L) phrase reads
      -- A call starts with no operator.
      have other : w.current.type ∉ unaryOperators := fun mem => by
        revert shown mem
        cases w.current.type <;> decide
      rw [unaryOver, bind_of_ok (accept_of_not_mem other)]
      exact (recognizes_call h begins).complete phrase reads last

/-! ## Expressions -/

/-- The types of tokens that go on with an expression without an equals sign. -/
def ladderStops : List TokenType :=
  [.orKw, .andKw, .bangEqual, .equalEqual, .greater, .greaterEqual, .less, .lessEqual, .minus,
   .plus, .slash, .star, .leftParen, .dot]

/-- Chains of all tiers are read. -/
theorem recognizes_ladder {operand : Rule Expr} {L : Lang Expr}
    (h : Recognizes operandStops operand L) :
    Recognizes ladderStops (ladder tiers operand) (LogicOr L) := by
  have factor := recognizes_chain ⟨[.slash, .star], .binary⟩ (by decide) (by decide) h
  have term := recognizes_chain ⟨[.minus, .plus], .binary⟩ (by decide) (by decide) factor
  have comparison := recognizes_chain ⟨[.greater, .greaterEqual, .less, .lessEqual], .binary⟩
    (by decide) (by decide) term
  have equality := recognizes_chain ⟨[.bangEqual, .equalEqual], .binary⟩
    (by decide) (by decide) comparison
  have logicAnd := recognizes_chain ⟨[.andKw], .logical⟩ (by decide) (by decide) equality
  exact recognizes_chain ⟨[.orKw], .logical⟩ (by decide) (by decide) logicAnd

/-- What an equals sign makes of the expression in front of it and the one behind it. -/
def assign (target : Expr) (equals : Token) (value : Expr) : Rule Expr :=
  match target with
  | .named name => return .assign name value
  | .get object name => return .set object name value
  | _ => blame .invalidTarget equals

/-- Reads what comes behind the target of an assignment: an equals sign and an expression, or
nothing. -/
def assigned (expression : Rule Expr) (target : Expr) : Rule Expr := do
  match ← accept [.equal] with
  | none => return target
  | some equals => assign target equals (← expression)

/-- An assignment is a target and what comes behind it. -/
theorem assignment_eq (operand expression : Rule Expr) :
    assignment operand expression = ladder tiers operand >>= assigned expression := rfl

section Assignment

variable {operand expression : Rule Expr} {D L : Lang Expr} {target value : Expr} {equals : Token}
  {ts us : List Token} {w w' : Window}

/-- An equals sign makes an assignment of a target that is a name or a property, because a call is
one only if it ends in the name. -/
theorem assign_ok {e : Expr} (ok : assign target equals value w = .ok e w')
    (left : LogicOr (UnaryOver D L) ts target) (isEquals : equals.type = .equal)
    (right : L us value) : w' = w ∧ Assignment (UnaryOver D L) L (ts ++ equals :: us) e := by
  cases target with
  | named name =>
    obtain ⟨rfl, rfl⟩ := pure_ok ok
    obtain ⟨rfl, isName⟩ := eq_of_named (call_of_logicOr left rfl (fun _ _ => Expr.noConfusion))
    exact ⟨rfl, .named isName isEquals right⟩
  | get object name =>
    obtain ⟨rfl, rfl⟩ := pure_ok ok
    obtain ⟨vs, dot, rfl, isDot, isName, before⟩ :=
      split_of_get (call_of_logicOr left rfl (fun _ _ => Expr.noConfusion))
    refine ⟨rfl, ?_⟩
    simpa using Assignment.property before isDot isName isEquals right
  | _ => simp [assign, blame] at ok

/-- With a target, an equals sign and an expression behind it, the two are put together. -/
theorem assignment_of_reads (ho : Recognizes operandStops operand (UnaryOver D L))
    (h : Recognizes expressionStops expression L) (left : LogicOr (UnaryOver D L) ts target)
    (isEquals : equals.type = .equal) (right : L us value)
    (reads : w.Reads (ts ++ equals :: us) w') (last : w'.current.type ∉ expressionStops) :
    assignment operand expression w = assign target equals value w' := by
  obtain ⟨v₁, first, rest⟩ := Window.reads_append.1 reads
  obtain ⟨v₂, second, third⟩ := Window.reads_head.1 rest
  have follow : v₁.current.type ∉ ladderStops := by
    rw [(Window.reads_singleton.1 second).2.1, isEquals]
    decide
  rw [assignment, bind_of_ok ((recognizes_ladder ho).complete left first follow),
    bind_of_ok (accept_of_reads second (by simp [isEquals]))]
  exact bind_of_ok (h.complete right third last)

/-- An expression is read. Its target may be read as any operand, because a name or a property is
an expression of every tier. -/
theorem recognizes_assignment (ho : Recognizes operandStops operand (UnaryOver D L))
    (h : Recognizes expressionStops expression L) :
    Recognizes expressionStops (assignment operand expression)
      (Assignment (UnaryOver D L) L) where
  sound := by
    intro w e w' ok
    obtain ⟨target, v, first, ok⟩ := bind_ok ok
    obtain ⟨ts, reads, left⟩ := (recognizes_ladder ho).sound first
    obtain ⟨found, u, second, rest⟩ := bind_ok ok
    rcases accept_ok second (by decide) with ⟨rfl, rfl, -⟩ | ⟨equals, rfl, mem, reads'⟩
    · obtain ⟨rfl, rfl⟩ := pure_ok rest
      exact ⟨ts, reads, .logicOr left⟩
    · have isEquals : equals.type = .equal := by simpa using mem
      obtain ⟨value, x, third, last⟩ := bind_ok rest
      obtain ⟨us, reads'', right⟩ := h.sound third
      obtain ⟨rfl, phrase⟩ := assign_ok last left isEquals right
      exact ⟨_, reads.append (reads'.append reads''), phrase⟩
  complete := by
    intro w ts e w' phrase reads last
    cases phrase with
    | @named name equals us value isName isEquals right =>
      have target : LogicOr (UnaryOver D L) [name] (.named name) :=
        logicOr_of_operand (.call (by simpa using Call.mk (.named isName) (.nil _)))
      exact assignment_of_reads ho h target isEquals right reads last
    | @property dot name equals us vs object value before isDot isName isEquals right =>
      have target : LogicOr (UnaryOver D L) (us ++ [dot, name]) (.get object name) :=
        logicOr_of_operand (.call (call_get before isDot isName))
      exact assignment_of_reads ho h target isEquals right (by simpa using reads) last
    | logicOr phrase =>
      have follow : w'.current.type ∉ ladderStops := fun mem => last (List.mem_cons_of_mem _ mem)
      have other : w'.current.type ∉ [TokenType.equal] := fun mem =>
        last (List.mem_append_left ladderStops mem)
      rw [assignment, bind_of_ok ((recognizes_ladder ho).complete phrase reads follow),
        bind_of_ok (accept_of_not_mem other)]
      rfl

end Assignment

/-- At every level operands and expressions are read. -/
theorem recognizes_levels (limit : Int) (n : Nat) :
    Recognizes operandStops (unary limit n) (Unary n) ∧
      Recognizes expressionStops (expression limit n) (Expression n) := by
  induction n with
  | zero =>
    exact ⟨recognizes_unaryOver (recognizes_fail _) (recognizes_fail _) (begins_expression 0),
      recognizes_fail _⟩
  | succ n ih =>
    obtain ⟨operands, expressions⟩ := ih
    -- An expression has operands of the same level inside, and an operand is one of the next.
    have operands' := operands
    rw [unary_eq] at operands'
    have assignments := recognizes_assignment operands' expressions
    rw [← unary_eq] at assignments
    exact ⟨recognizes_unaryOver operands assignments (begins_expression (n + 1)), assignments⟩

/-- An expression with a limit on its levels is read. -/
theorem recognizes_expression (limit : Int) (n : Nat) :
    Recognizes expressionStops (expression limit n) (Expression n) :=
  (recognizes_levels limit n).2

end Lox.Rule
