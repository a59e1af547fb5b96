import Lox.Proofs.Reading.Expression
import Lox.Proofs.Rule.Prompt

/-!
# Rules for expressions are prompt

Every rule for expressions is prompt if the rules for its parts are. What it reads is the right side
of its production, phrase by phrase; what remains to be checked is where two phrases meet, and a
table of the types that may come behind an expression, an operand and a primary expression decides
it. Levels of nesting do not matter, so expressions are prompt at every level (`promptly_levels`).
-/

namespace Lox.Rule

open Ebnf
open Ebnf.Phrase (token row anyOf)

variable {F : List TokenType}

/-! ## Expressions -/

section Expressions

/-- What may come behind an expression. -/
def expressionEnds : List TokenType := [.rightParen, .comma, .semicolon]

/-- What may come behind an operand of binary operators: any of them, an equals sign or what may
come behind an expression. -/
def operandEnds : List TokenType :=
  [.slash, .star, .minus, .plus, .greater, .greaterEqual, .less, .lessEqual, .bangEqual,
    .equalEqual, .andKw, .orKw, .equal, .rightParen, .comma, .semicolon]

/-- What may come behind a primary expression: also a call or a property. -/
def primaryEnds : List TokenType := .leftParen :: .dot :: operandEnds

/-- A rule for expressions that is prompt before what may come behind one. -/
abbrev PromptExpression (r : Rule Expr) : Prop :=
  Promptly (.symbol .expression) (before (.symbol .expression) expressionEnds) r

variable {operand deeper expression : Rule Expr}

/-- A chain is prompt if its operands are so before its operators, too. -/
theorem promptly_chain (tier : Tier) {p : Phrase}
    (h : Promptly p (before p (tier.operators ++ F)) operand) (notEof : .eof ∉ tier.operators)
    (apart : ∀ t ∈ F, t ∉ tier.operators) (lives : p.hasWords (fun _ => true) = true) :
    Promptly (chained tier.operators p) (before (chained tier.operators p) F)
      (chain tier operand) := by
  rw [chain_eq]
  refine Promptly.row (h.bind (fun left w => ?_) (fun _ => id) rfl)
  refine (promptly_loop tier.operators.contains ?_ ?_ ?_ ?_ rfl left w).last
  · -- Where no operator is shown the chain ends.
    intro left w other
    rw [chainTurn, accept_bind_of_not_mem (by simpa using other)]
    rfl
  · -- Where one is shown a turn reads it and an operand.
    intro left w shown
    refine ⟨do
      let operator ← read
      return tier.join left operator (← operand), ?_, ?_⟩
    · rw [chainTurn, accept_bind_of_mem (by simpa using shown)]
      simp
    · refine Prompt.row (Prompt.read_bind (by simpa using shown) (fun operator v _ => ?_) notEof
        (by simpa [Phrase.hasWords, row] using lives))
      exact h.bind (fun right => promptly_pure _) (fun _ => id) rfl v
  · intro t mem
    simpa [row, Phrase.starters, Phrase.nullable] using mem
  · intro t mem
    simpa using apart t mem

/-- The binary operators around operands that are prompt before all of them. -/
theorem promptly_ladder
    (h : Promptly (.symbol .unary) (before (.symbol .unary) operandEnds) operand) :
    Promptly (.symbol .logicOr) (before (.symbol .logicOr) (.equal :: expressionEnds))
      (ladder tiers operand) := by
  have factor := Promptly.symbol .factor
    (promptly_chain ⟨[.slash, .star], .binary⟩ h (by decide) (by decide) rfl)
  have term := Promptly.symbol .term
    (promptly_chain ⟨[.minus, .plus], .binary⟩ factor (by decide) (by decide) rfl)
  have comparison := Promptly.symbol .comparison
    (promptly_chain ⟨[.greater, .greaterEqual, .less, .lessEqual], .binary⟩ term
      (by decide) (by decide) rfl)
  have equality := Promptly.symbol .equality
    (promptly_chain ⟨[.bangEqual, .equalEqual], .binary⟩ comparison
      (by decide) (by decide) rfl)
  have logicAnd := Promptly.symbol .logicAnd
    (promptly_chain ⟨[.andKw], .logical⟩ equality (by decide) (by decide) rfl)
  exact Promptly.symbol .logicOr
    (promptly_chain ⟨[.orKw], .logical⟩ logicAnd (by decide) (by decide) rfl)

/-- What is read behind a comma in a list of arguments. -/
def argumentsBehind (expression : Rule Expr) (done : List Expr) : Rule (List Expr) := do
  if ← comes .rightParen then return done
  else
    let e ← expression
    loop (argumentsTurn expression) (e :: done)

/-- The arguments behind the first, up to the closing parenthesis. -/
theorem promptly_moreArguments (h : PromptExpression expression) (done : List Expr) :
    Promptly (row (moreOf (.symbol .expression)))
      (before (row (moreOf (.symbol .expression))) [.rightParen])
      (loop (argumentsTurn expression) done) := by
  refine promptly_list (argumentsBehind expression) (fun done => ?_) (fun done w ih => ?_) done
  · -- A turn is a comma and what comes behind it.
    rw [loop_eq (reads_argumentsTurn h.sound)]
    simp only [argumentsTurn, bind_assoc]
    congr
    funext found
    cases found with
    | none => rfl
    | some comma =>
      simp only [bind_assoc, Option.elim_some, argumentsBehind]
      congr
      funext closed
      cases closed <;> simp
  · -- An argument comes unless the list is closed, and the loop goes on behind it.
    refine Prompt.unless ?_ rfl
    refine Prompt.row (?_ : Prompt (row (.symbol .expression :: moreOf (.symbol .expression))) _ w _)
    refine (h w).then fun e v step => Prompt.rest (ih _ _ ?_)
    obtain ⟨ts, reads, -⟩ := h.sound step
    have := reads.unread
    omega

/-- Arguments, up to the closing parenthesis. -/
theorem promptly_arguments (h : PromptExpression expression) :
    Promptly (.maybe (.symbol .arguments)) (before (.maybe (.symbol .arguments)) [.rightParen])
      (arguments expression) := by
  rw [arguments_eq]
  intro w
  refine Prompt.unless (Promptly.symbol .arguments (Promptly.row ?_) w) rfl
  exact h.bind fun e v => ((promptly_moreArguments h [e]).map List.reverse v).rest

/-- What may trail a primary expression. -/
def trailerPhrases : List Phrase :=
  [row [token .leftParen, .maybe (.symbol .arguments), token .rightParen],
    row [token .dot, token .identifier]]

/-- Trailers are prompt. -/
theorem promptly_trailers (h : PromptExpression expression) (e : Expr) :
    Promptly (.many (anyOf trailerPhrases)) (before (.many (anyOf trailerPhrases)) operandEnds)
      (trailers expression e) := by
  rw [trailers_eq]
  refine promptly_loop (fun t => t == .leftParen || t == .dot) ?_ ?_ (by decide) (by decide) rfl e
  · intro e w other
    simp only [Bool.or_eq_false_iff, beq_eq_false_iff_ne] at other
    rw [trailersTurn, peek_run]
    split
    · exact absurd ‹_› other.1
    · exact absurd ‹_› other.2
    · rfl
  · intro e w shown
    simp only [Bool.or_eq_true, beq_iff_eq] at shown
    -- A call, or a property.
    rcases shown with shown | shown
    · refine ⟨do
        let _ ← read
        let args ← arguments expression
        let paren ← expect .rightParen "Expect ')' after arguments."
        return .call e paren args, ?_, ?_⟩
      · rw [trailersTurn, peek_bind, shown]
        simp
      · refine Prompt.anyOf (p := row [token .leftParen, .maybe (.symbol .arguments),
          token .rightParen]) (Prompt.row ?_) (by decide) (by rw [shown]; decide)
        refine Prompt.read_bind (by simpa using shown) fun _ v _ => ?_
        exact (promptly_arguments h).bind
          (fun args => promptly_expect_bind fun paren => promptly_pure _) (by decide) rfl v
    · refine ⟨do
        let _ ← read
        let name ← expect .identifier "Expect property name after '.'."
        return .get e name, ?_, ?_⟩
      · rw [trailersTurn, peek_bind, shown]
        simp
      · refine Prompt.anyOf (p := row [token .dot, token .identifier]) (Prompt.row ?_) (by decide)
          (by rw [shown]; decide)
        refine Prompt.read_bind (by simpa using shown) fun _ v _ => ?_
        exact promptly_expect_bind (fun name => promptly_pure _) (by decide) rfl v

/-- A primary expression is prompt. -/
theorem promptly_primary (h : PromptExpression expression) :
    Promptly (.symbol .primary) (before (.symbol .primary) primaryEnds) (primary expression) := by
  refine Promptly.symbol .primary fun w => ?_
  -- A literal or a name is a phrase of one token.
  have one : ∀ {type : TokenType} {f : Token → Expr}, w.current.type = type → type ≠ .eof →
      Prompt (token type) (before (token type) primaryEnds) w
        ((read >>= fun t => return f t : Rule Expr) w) := fun shown notEof =>
    Prompt.single (Prompt.read_bind (by simpa using shown) (fun t v _ => promptly_pure _ v)
      (by simpa using notEof.symm))
  rw [primary, peek_run]
  split
  iterate 6
    rename_i shown
    exact (one shown (by decide)).anyOf (by decide) (by rw [shown]; decide)
  · rename_i shown
    refine Prompt.anyOf (p := row [token .superKw, token .dot, token .identifier]) (Prompt.row ?_)
      (by decide) (by rw [shown]; decide)
    exact Prompt.read_bind (by simpa using shown) fun keyword v _ =>
      promptly_expect_bind (fun _ => promptly_expect_bind fun method => promptly_pure _)
        (by decide) rfl v
  · rename_i shown
    exact (one shown (by decide)).anyOf (by decide) (by rw [shown]; decide)
  · rename_i shown
    refine Prompt.anyOf (p := row [token .leftParen, .symbol .expression, token .rightParen])
      (Prompt.row ?_) (by decide) (by rw [shown]; decide)
    exact Prompt.read_bind (by simpa using shown) fun _ v _ =>
      h.bind (fun inner => promptly_expect_bind fun _ => promptly_pure _) (by decide) rfl v
  · -- No other token starts a primary expression.
    refine prompt_fail (exists_derives (by decide)) ?_
    generalize w.current.type = t at *
    cases t <;> first | exact absurd rfl ‹_› | decide

/-- A call is prompt. -/
theorem promptly_call (h : PromptExpression expression) :
    Promptly (.symbol .call) (before (.symbol .call) operandEnds) (call expression) :=
  Promptly.symbol .call (Promptly.row ((promptly_primary h).bind fun e w =>
    (promptly_trailers h e w).last))

/-- An operand of binary operators is prompt. -/
theorem promptly_unaryOver
    (hd : Promptly (.symbol .unary) (before (.symbol .unary) operandEnds) deeper)
    (h : PromptExpression expression) :
    Promptly (.symbol .unary) (before (.symbol .unary) operandEnds)
      (unaryOver deeper expression) := by
  refine Promptly.symbol .unary fun w => ?_
  rw [unaryOver]
  -- No call starts with an operator, so the token that is shown tells them apart.
  by_cases shown : w.current.type ∈ unaryOperators
  · rw [accept_bind_of_mem shown]
    refine Prompt.anyOf (p := row [.oneOf unaryOperators, .symbol .unary]) (Prompt.row ?_)
      (by decide) fun q mem starts => ?_
    · exact Prompt.read_bind shown fun operator v _ =>
        hd.bind (fun right => promptly_pure _) (by decide) rfl v
    · have apart : ∀ t ∈ unaryOperators,
          ∀ q ∈ [row [.oneOf [.bang, .minus], .symbol .unary], .symbol .call],
            t ∈ q.ahead operandEnds → q = row [.oneOf unaryOperators, .symbol .unary] := by
        decide
      exact apart _ shown q mem starts
  · rw [accept_bind_of_not_mem shown]
    refine Prompt.anyOf (p := .symbol .call) (promptly_call h w) (by decide) fun q mem starts => ?_
    simp only [List.mem_cons, List.not_mem_nil, or_false] at mem
    rcases mem with rfl | rfl
    · exact absurd starts shown
    · rfl

/-- An assignment has the words of an operand with or without an equals sign and a right side. -/
theorem derives_assignment {u : Word} : Derives (.symbol .assignment) u ↔
    Derives (row [.symbol .logicOr, .maybe (row [token .equal, .symbol .assignment])]) u := by
  have choice : production .assignment =
    anyOf [row [.symbol .logicOr, token .equal, .symbol .assignment], .symbol .logicOr] := rfl
  rw [derives_symbol, choice, derives_anyOf]
  simp only [List.mem_cons, List.not_mem_nil, or_false, exists_eq_or_imp, exists_eq_left]
  constructor
  · rintro (h | h)
    · obtain ⟨v, w, rfl, target, rest⟩ := derives_seq.1 h
      exact .seq target (derives_row_singleton.2 (.some rest))
    · exact derives_seq.2 ⟨u, [], (List.append_nil u).symm, h, derives_row_singleton.2 .none⟩
  · intro h
    obtain ⟨v, w, rfl, target, rest⟩ := derives_seq.1 h
    rcases derives_maybe.1 (derives_row_singleton.1 rest) with rfl | rest
    · rw [List.append_nil]
      exact .inr target
    · exact .inl (.seq target rest)

/-- An assignment is prompt. What an equals sign follows is not looked at here. -/
theorem promptly_assignment
    (ho : Promptly (.symbol .unary) (before (.symbol .unary) operandEnds) operand)
    (h : PromptExpression expression) : PromptExpression (assignment operand expression) := by
  refine Promptly.symbol .expression fun w => ?_
  refine Prompt.congr
    (p := row [.symbol .logicOr, .maybe (row [token .equal, .symbol .assignment])])
    (Promptly.row ?_ w) fun u => derives_assignment
  refine (promptly_ladder ho).bind fun target v => Prompt.last ?_
  refine Prompt.guarded [.equal] (b := target) (fun equals x _ => ?_) rfl (by decide)
  refine Prompt.row ?_
  have value : Promptly (.symbol .assignment) (before (.symbol .assignment) expressionEnds)
      expression := fun y => (h y).congr fun u => (derives_symbol (s := .expression)).symm
  refine value.bind (Q := stop expressionEnds) (fun value y => ?_) (fun _ => id) rfl x
  -- An invalid target is blamed for something else than its place.
  split
  · exact promptly_pure _ y
  · exact promptly_pure _ y
  · exact prompt_blame (show "P006" ∉ misfits by decide)

end Expressions

/-- At every level operands and expressions are prompt. -/
theorem promptly_levels (limit : Int) (n : Nat) :
    Promptly (.symbol .unary) (before (.symbol .unary) operandEnds) (unary limit n) ∧
      PromptExpression (expression limit n) := by
  induction n with
  | zero =>
    exact ⟨promptly_unaryOver (promptly_tooDeep limit) (promptly_tooDeep limit),
      promptly_tooDeep limit⟩
  | succ n ih =>
    obtain ⟨operands, expressions⟩ := ih
    have assignments := promptly_assignment operands expressions
    exact ⟨promptly_unaryOver operands assignments, assignments⟩

end Lox.Rule
