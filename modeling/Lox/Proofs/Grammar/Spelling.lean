import Lox.Proofs.Grammar.Expression
import Lox.Proofs.Tree.Shape

/-!
# The phrases of spelled trees

A tree that has the shape of one that was read, and as many levels as it needs, has a phrase: its
own spelling, whatever lines the tokens have. The phrase stands for the tree with these lines.
-/

namespace Lox

namespace Grammar

variable {α : Type}

/-- A row of tokens is a phrase for something that is told from what is asked for only by what
`same` removes. -/
def Upto (same : α → α) (L : Lang α) (ts : List Token) (a : α) : Prop :=
  ∃ b, same b = same a ∧ L ts b

/-- Rows without lines are split where the row is. -/
theorem split_append {ts us vs : List Token} (h : ts.map Token.erased = us ++ vs) :
    ∃ ts₁ ts₂, ts = ts₁ ++ ts₂ ∧ ts₁.map Token.erased = us ∧ ts₂.map Token.erased = vs :=
  List.map_eq_append_iff.1 h

/-- The first token of a row without lines is that of the row. -/
theorem split_cons {ts us : List Token} {u : Token} (h : ts.map Token.erased = u :: us) :
    ∃ t ts', ts = t :: ts' ∧ t.erased = u ∧ ts'.map Token.erased = us :=
  List.map_eq_cons_iff.1 h

/-- A row without lines is a single token if the row is. -/
theorem split_singleton {ts : List Token} {u : Token} (h : ts.map Token.erased = [u]) :
    ∃ t, ts = [t] ∧ t.erased = u := by
  obtain ⟨t, ts', rfl, shown, rest⟩ := split_cons h
  obtain rfl := List.map_eq_nil_iff.1 rest
  exact ⟨t, rfl, shown⟩

/-- The last token of a row without lines is that of the row. -/
theorem split_snoc {ts us : List Token} {u : Token} (h : ts.map Token.erased = us ++ [u]) :
    ∃ ts' t, ts = ts' ++ [t] ∧ ts'.map Token.erased = us ∧ t.erased = u := by
  obtain ⟨ts', rest, rfl, first, last⟩ := split_append h
  obtain ⟨t, rfl, shown⟩ := split_singleton last
  exact ⟨ts', t, rfl, first, shown⟩

/-- A token without a line has the type of the token. -/
theorem type_of_erased {t u : Token} (h : t.erased = u) : t.type = u.type := by
  rw [← h, Token.erased_type]

/-- The spelling of an operator is the operator. -/
theorem asOperator_eq {t : Token} (h : t.IsSign t.type) : t.asOperator = t.erased := by
  have text : t.lexeme = some t.type.text := congrArg Token.lexeme h
  rw [h, Token.asOperator, Token.spelling, text]
  rfl

/-! ## Rows -/

section Rows

variable {same : α → α} {L : Lang α} {spell : α → List Token}

/-- A row of spelled things is a row of their phrases. -/
theorem many_of_spelled {as : List α}
    (h : ∀ a ∈ as, ∀ ts, ts.map Token.erased = spell a → Upto same L ts a) {ts : List Token}
    (spelled : ts.map Token.erased = (as.map spell).flatten) :
    Upto (List.map same) (Many L) ts as := by
  induction as generalizing ts with
  | nil =>
    obtain rfl := List.map_eq_nil_iff.1 spelled
    exact ⟨[], rfl, .nil⟩
  | cons a as ih =>
    obtain ⟨ts₁, ts₂, rfl, first, rest⟩ := split_append spelled
    obtain ⟨b, eq, phrase⟩ := h a (List.mem_cons_self ..) ts₁ first
    obtain ⟨bs, eqs, more⟩ := ih (fun a mem => h a (List.mem_cons_of_mem _ mem)) rest
    exact ⟨b :: bs, by rw [List.map_cons, List.map_cons, eq, eqs], .cons phrase more⟩

/-- Spelled things with commas between them, one at the least, are a phrase and further ones behind
commas. -/
theorem further_of_spelled {as : List α} {a : α}
    (others : ∀ a ∈ as, ∀ ts, ts.map Token.erased = spell a → Upto same L ts a)
    (first : ∀ ts, ts.map Token.erased = spell a → Upto same L ts a) {ts : List Token}
    (spelled : ts.map Token.erased = Token.listed (spell a :: as.map spell)) :
    ∃ b bs ts₁ ts₂, (b :: bs).map same = (a :: as).map same ∧ ts = ts₁ ++ ts₂ ∧ L ts₁ b ∧
      Further L ts₂ bs := by
  induction as generalizing a ts with
  | nil =>
    obtain ⟨b, eq, phrase⟩ := first ts spelled
    exact ⟨b, [], ts, [], by simp [eq], by simp, phrase, .nil⟩
  | cons a' as ih =>
    -- The tokens fall into those of the first thing, a comma, and those of the things behind it.
    obtain ⟨ts₁, rest, rfl, here, spelled⟩ := split_append spelled
    obtain ⟨comma, rest, rfl, isComma, spelled⟩ := split_cons spelled
    obtain ⟨b, eq, phrase⟩ := first ts₁ here
    obtain ⟨b', bs, ts₂, ts₃, eqs, rfl, phrase', more⟩ :=
      ih (fun a mem => others a (List.mem_cons_of_mem _ mem)) (others a' (List.mem_cons_self ..))
        spelled
    refine ⟨b, b' :: bs, ts₁, comma :: (ts₂ ++ ts₃), ?_, rfl, phrase,
      .cons (type_of_erased isComma) phrase' more⟩
    rw [List.map_cons, eq, eqs]
    rfl

/-- Spelled things with commas between them are phrases with commas between them. -/
theorem listed_of_spelled {as : List α}
    (h : ∀ a ∈ as, ∀ ts, ts.map Token.erased = spell a → Upto same L ts a) {ts : List Token}
    (spelled : ts.map Token.erased = Token.listed (as.map spell)) :
    Upto (List.map same) (Listed L) ts as := by
  cases as with
  | nil =>
    obtain rfl := List.map_eq_nil_iff.1 spelled
    exact ⟨[], rfl, .nil⟩
  | cons a as =>
    obtain ⟨b, bs, ts₁, ts₂, eq, rfl, phrase, more⟩ := further_of_spelled
      (fun a mem => h a (List.mem_cons_of_mem _ mem)) (h a (List.mem_cons_self ..)) spelled
    exact ⟨b :: bs, eq, .cons phrase more⟩

end Rows

/-! ## Expressions -/

/-- The expressions that hold together at least as tightly as a rank, given the operands of binary
operators and the expressions inside them. -/
def Ranked (unary expression : Lang Expr) : (rank : Nat) → Lang Expr
  | 0 => Assignment unary expression
  | 1 => LogicOr unary
  | 2 => LogicAnd unary
  | 3 => Equality unary
  | 4 => Comparison unary
  | 5 => Term unary
  | 6 => Factor unary
  | 7 => unary
  | _ => Call expression

section Expressions

variable {D L : Lang Expr} {e : Expr} {ts us : List Token}

/-- What holds together more tightly stands wherever what does less may. -/
theorem ranked_of_succ {k : Nat} (h : Ranked (UnaryOver D L) L (k + 1) ts e) :
    Ranked (UnaryOver D L) L k ts e := by
  match k with
  | 0 => exact .logicOr h
  | 1 | 2 | 3 | 4 | 5 | 6 => exact chain_of_operand h
  | 7 => exact .call h
  | _ + 8 => exact h

/-- What holds together more tightly stands wherever what does less may. -/
theorem ranked_of_le {j k : Nat} (le : j ≤ k) (h : Ranked (UnaryOver D L) L k ts e) :
    Ranked (UnaryOver D L) L j ts e := by
  induction le with
  | refl => exact h
  | step _ ih => exact ih (ranked_of_succ h)

/-- An operation after a chain is one more of it. -/
theorem chain_snoc {operators : List TokenType} {join : Expr → Token → Expr → Expr}
    {left right : Expr} {operator : Token} (h : Chain operators join L ts left)
    (mem : operator.type ∈ operators) (h' : L us right) :
    Chain operators join L (ts ++ operator :: us) (join left operator right) := by
  obtain ⟨first, more⟩ := h
  rw [List.append_assoc]
  refine .mk first ?_
  clear first
  induction more with
  | nil e => simpa using Operations.cons mem h' (.nil _)
  | cons mem' phrase _ ih => simpa using Operations.cons mem' phrase ih

/-- Arithmetic, a comparison or an equality joins a left side of its own rank and a right side that
holds together more tightly. -/
theorem ranked_binary {left right : Expr} {operator : Token}
    (rank : 3 ≤ operatorRank operator.type)
    (h : Ranked (UnaryOver D L) L (operatorRank operator.type) ts left)
    (h' : Ranked (UnaryOver D L) L (operatorRank operator.type + 1) us right) :
    Ranked (UnaryOver D L) L (operatorRank operator.type) (ts ++ operator :: us)
      (.binary left operator right) := by
  revert h h'
  cases shown : operator.type <;> simp only [shown, operatorRank] at rank ⊢ <;>
    first
    | omega
    | exact fun h h' => chain_snoc h (by simp [shown]) h'

/-- A logical operation joins a left side of its own rank and a right side that holds together more
tightly. -/
theorem ranked_logical {left right : Expr} {operator : Token}
    (mem : operator.type ∈ [TokenType.orKw, .andKw])
    (h : Ranked (UnaryOver D L) L (operatorRank operator.type) ts left)
    (h' : Ranked (UnaryOver D L) L (operatorRank operator.type + 1) us right) :
    Ranked (UnaryOver D L) L (operatorRank operator.type) (ts ++ operator :: us)
      (.logical left operator right) := by
  have either : operator.type = .orKw ∨ operator.type = .andKw := by simpa using mem
  rcases either with shown | shown
  · rw [shown] at h h' ⊢
    exact chain_snoc h (by simp [shown]) h'
  · rw [shown] at h h' ⊢
    exact chain_snoc h (by simp [shown]) h'

end Expressions

/-- An expression of any rank is an expression, one level up. -/
theorem expression_of_ranked {n k : Nat} {ts : List Token} {e : Expr}
    (h : Ranked (Unary n) (Expression n) k ts e) : Expression (n + 1) ts e := by
  rw [unary_eq] at h
  have all := ranked_of_le (Nat.zero_le k) h
  rw [← unary_eq] at all
  exact all

/-- A literal is spelled by a primary expression. -/
theorem primary_of_literal {L : Lang Expr} {value : Literal} {t : Token}
    (spelled : t.erased = value.token) : Primary L [t] (.literal value) := by
  cases value with
  | nil => exact .nil (type_of_erased spelled)
  | bool b =>
    cases b with
    | false => exact .false (type_of_erased spelled)
    | true => exact .true (type_of_erased spelled)
  | number x =>
    have phrase : Primary L [t] (.literal (.ofNumber t.literal)) := .number (type_of_erased spelled)
    rwa [show t.literal = some x from congrArg Token.literal spelled] at phrase
  | text s =>
    have phrase : Primary L [t] (.literal (.ofText t.lexeme)) := .string (type_of_erased spelled)
    rwa [show t.lexeme = some s from congrArg Token.lexeme spelled] at phrase

/-- The phrase of a primary expression is a call. -/
theorem call_of_primary {L : Lang Expr} {ts : List Token} {e : Expr} (h : Primary L ts e) :
    Call L ts e := by simpa using Call.mk h (.nil e)

/-- The spelling of an expression is a phrase for it, at its rank and with some levels below it. -/
def RankedAs (n : Nat) (e : Expr) : Prop :=
  ∀ ⦃ts⦄, ts.map Token.erased = e.spelling →
    Upto Expr.erased (Ranked (Unary n) (Expression n) e.rank) ts e

/-- Where one level more is needed there is one. -/
theorem exists_level {m n : Nat} (h : m + 1 ≤ n) : ∃ k, n = k + 1 ∧ m ≤ k :=
  ⟨n - 1, by omega, by omega⟩

section Cases

variable {n : Nat} {left right object value inner callee : Expr} {operator name : Token}
  {ts : List Token}

/-- The expressions with some levels below them are those of one level more. -/
theorem RankedAs.expression {e : Expr} (h : RankedAs n e)
    (spelled : ts.map Token.erased = e.spelling) :
    Upto Expr.erased (Expression (n + 1)) ts e := by
  obtain ⟨e', eq, phrase⟩ := h spelled
  exact ⟨e', eq, expression_of_ranked phrase⟩

/-- An expression to which a call or a property may be attached is a call. -/
theorem RankedAs.call {e : Expr} (h : RankedAs n e) (rank : e.rank = 8)
    (spelled : ts.map Token.erased = e.spelling) : Upto Expr.erased (Call (Expression n)) ts e := by
  obtain ⟨e', eq, phrase⟩ := h spelled
  rw [rank] at phrase
  exact ⟨e', eq, phrase⟩

/-- An assignment to a name. -/
theorem rankedAs_assign (isName : name.IsName) (h : RankedAs n value) :
    RankedAs (n + 1) (.assign name value) := by
  intro ts spelled
  obtain ⟨t, ts, rfl, shown, spelled⟩ := split_cons spelled
  obtain ⟨equals, ts, rfl, isEquals, spelled⟩ := split_cons spelled
  obtain ⟨value', eq, phrase⟩ := h.expression spelled
  refine ⟨.assign t value', ?_, .named (type_of_erased shown) (type_of_erased isEquals) phrase⟩
  rw [Expr.erased, Expr.erased, eq, shown, isName]

/-- Two operands and the operator between them: what is on the left holds together at least as
tightly as the operation, and what is on the right more tightly. -/
theorem operands_of_spelled (isSign : operator.IsSign operator.type)
    (leftRank : operatorRank operator.type ≤ left.rank)
    (rightRank : operatorRank operator.type < right.rank) (h : RankedAs n left)
    (h' : RankedAs n right)
    (spelled : ts.map Token.erased = left.spelling ++ operator.asOperator :: right.spelling) :
    ∃ us t vs left' right', ts = us ++ t :: vs ∧ t.erased = operator.erased ∧
      left'.erased = left.erased ∧ right'.erased = right.erased ∧
      Ranked (Unary n) (Expression n) (operatorRank t.type) us left' ∧
      Ranked (Unary n) (Expression n) (operatorRank t.type + 1) vs right' := by
  obtain ⟨us, ts, rfl, first, spelled⟩ := split_append spelled
  obtain ⟨t, vs, rfl, shown, second⟩ := split_cons spelled
  rw [asOperator_eq isSign] at shown
  obtain ⟨left', eq, phrase⟩ := h first
  obtain ⟨right', eq', phrase'⟩ := h' second
  have same : t.type = operator.type := (type_of_erased shown).trans operator.erased_type
  rw [unary_eq] at phrase phrase' ⊢
  exact ⟨us, t, vs, left', right', rfl, shown, eq, eq', ranked_of_le (same ▸ leftRank) phrase,
    ranked_of_le (same ▸ rightRank) phrase'⟩

/-- Arithmetic, a comparison or an equality. -/
theorem rankedAs_binary (rank : 3 ≤ operatorRank operator.type)
    (isSign : operator.IsSign operator.type) (leftRank : operatorRank operator.type ≤ left.rank)
    (rightRank : operatorRank operator.type < right.rank) (h : RankedAs n left)
    (h' : RankedAs n right) : RankedAs n (.binary left operator right) := by
  intro ts spelled
  obtain ⟨us, t, vs, left', right', rfl, shown, eq, eq', phrase, phrase'⟩ :=
    operands_of_spelled isSign leftRank rightRank h h' spelled
  have same : t.type = operator.type := (type_of_erased shown).trans operator.erased_type
  refine ⟨.binary left' t right', by rw [Expr.erased, Expr.erased, eq, eq', shown], ?_⟩
  rw [Expr.rank, ← same]
  rw [unary_eq] at phrase phrase' ⊢
  exact ranked_binary (same ▸ rank) phrase phrase'

/-- A logical operation. -/
theorem rankedAs_logical (mem : operator.type ∈ [TokenType.orKw, .andKw])
    (isSign : operator.IsSign operator.type) (leftRank : operatorRank operator.type ≤ left.rank)
    (rightRank : operatorRank operator.type < right.rank) (h : RankedAs n left)
    (h' : RankedAs n right) : RankedAs n (.logical left operator right) := by
  intro ts spelled
  obtain ⟨us, t, vs, left', right', rfl, shown, eq, eq', phrase, phrase'⟩ :=
    operands_of_spelled isSign leftRank rightRank h h' spelled
  have same : t.type = operator.type := (type_of_erased shown).trans operator.erased_type
  refine ⟨.logical left' t right', by rw [Expr.erased, Expr.erased, eq, eq', shown], ?_⟩
  rw [Expr.rank, ← same]
  rw [unary_eq] at phrase phrase' ⊢
  exact ranked_logical (same ▸ mem) phrase phrase'

/-- A call. -/
theorem rankedAs_call {paren : Token} {arguments : List Expr} (rank : callee.rank = 8)
    (isParen : paren.IsSign .rightParen) (h : RankedAs n callee)
    (each : ∀ e ∈ arguments, ∀ ts, ts.map Token.erased = e.spelling →
      Upto Expr.erased (Expression n) ts e) :
    RankedAs n (.call callee paren arguments) := by
  intro ts spelled
  obtain ⟨ts, us, rfl, first, spelled⟩ := split_append spelled
  obtain ⟨left, us, rfl, isLeft, spelled⟩ := split_cons spelled
  obtain ⟨us, right, rfl, second, isRight⟩ := split_snoc spelled
  obtain ⟨callee', eq, head, more⟩ := h.call rank first
  rw [Expr.spellings_eq_map] at second
  obtain ⟨arguments', eqs, phrases⟩ := listed_of_spelled each second
  refine ⟨.call callee' right arguments', ?_, ?_⟩
  · rw [Expr.erased, Expr.erased, eq, Expr.erasedAll_eq_map, Expr.erasedAll_eq_map, eqs, isRight,
      isParen]
  · rw [List.append_assoc]
    exact .mk head (trailers_call more (type_of_erased isLeft) phrases (type_of_erased isRight))

/-- A property. -/
theorem rankedAs_get (rank : object.rank = 8) (isName : name.IsName) (h : RankedAs n object) :
    RankedAs n (.get object name) := by
  intro ts spelled
  obtain ⟨ts, us, rfl, first, spelled⟩ := split_append spelled
  obtain ⟨dot, us, rfl, isDot, spelled⟩ := split_cons spelled
  obtain ⟨t, rfl, shown⟩ := split_singleton spelled
  obtain ⟨object', eq, phrase⟩ := h.call rank first
  refine ⟨.get object' t, ?_, call_get phrase (type_of_erased isDot) (type_of_erased shown)⟩
  rw [Expr.erased, Expr.erased, eq, shown, isName]

/-- An expression in parentheses. -/
theorem rankedAs_grouping (h : RankedAs n inner) : RankedAs (n + 1) (.grouping inner) := by
  intro ts spelled
  obtain ⟨left, us, rfl, isLeft, spelled⟩ := split_cons spelled
  obtain ⟨us, right, rfl, first, isRight⟩ := split_snoc spelled
  obtain ⟨inner', eq, phrase⟩ := h.expression first
  refine ⟨.grouping inner', by rw [Expr.erased, Expr.erased, eq], call_of_primary ?_⟩
  exact .grouping (type_of_erased isLeft) phrase (type_of_erased isRight)

/-- An assignment to a property. -/
theorem rankedAs_set (rank : object.rank = 8) (isName : name.IsName) (h : RankedAs (n + 1) object)
    (h' : RankedAs n value) : RankedAs (n + 1) (.set object name value) := by
  intro ts spelled
  obtain ⟨ts, us, rfl, first, spelled⟩ := split_append spelled
  obtain ⟨dot, us, rfl, isDot, spelled⟩ := split_cons spelled
  obtain ⟨t, us, rfl, shown, spelled⟩ := split_cons spelled
  obtain ⟨equals, us, rfl, isEquals, second⟩ := split_cons spelled
  obtain ⟨object', eq, phrase⟩ := h.call rank first
  obtain ⟨value', eq', phrase'⟩ := h'.expression second
  refine ⟨.set object' t value', ?_, .property phrase (type_of_erased isDot)
    (type_of_erased shown) (type_of_erased isEquals) phrase'⟩
  rw [Expr.erased, Expr.erased, eq, eq', shown, isName]

/-- A unary operator and its operand. -/
theorem rankedAs_unary (mem : operator.type ∈ [TokenType.bang, .minus])
    (isSign : operator.IsSign operator.type) (rank : 7 ≤ right.rank) (h : RankedAs n right) :
    RankedAs (n + 1) (.unary operator right) := by
  intro ts spelled
  obtain ⟨t, us, rfl, shown, spelled⟩ := split_cons spelled
  rw [asOperator_eq isSign] at shown
  obtain ⟨right', eq, phrase⟩ := h spelled
  have same : t.type = operator.type := (type_of_erased shown).trans operator.erased_type
  rw [unary_eq] at phrase
  have operand := ranked_of_le rank phrase
  rw [← unary_eq] at operand
  refine ⟨.unary t right', by rw [Expr.erased, Expr.erased, eq, shown], ?_⟩
  rw [Expr.rank, unary_eq]
  exact .operator (same ▸ mem) operand

end Cases

/-- The spelling of a shaped expression is a phrase for it, at its rank and with the levels that it
needs. -/
theorem ranked_of_spelled {e : Expr} (shaped : e.Shaped) {n : Nat} (enough : e.nesting ≤ n) :
    RankedAs n e := by
  -- One case for each way to shape an expression; where a level is used up, `exists_level` splits
  -- it off the ones that are given.
  induction shaped generalizing n with
  | assign isName _ ih =>
    rw [Expr.nesting] at enough
    obtain ⟨m, rfl, below⟩ := exists_level enough
    exact rankedAs_assign isName (ih below)
  | binary rank isSign leftRank rightRank _ _ ih ih' =>
    rw [Expr.nesting, Nat.max_le] at enough
    exact rankedAs_binary rank isSign leftRank rightRank (ih enough.1) (ih' enough.2)
  | logical mem isSign leftRank rightRank _ _ ih ih' =>
    rw [Expr.nesting, Nat.max_le] at enough
    exact rankedAs_logical mem isSign leftRank rightRank (ih enough.1) (ih' enough.2)
  | call rank isParen _ _ ih ih' =>
    rw [Expr.nesting, Nat.max_le, Expr.nestingAll_le] at enough
    refine rankedAs_call rank isParen (ih enough.1) fun e mem ts spelled => ?_
    obtain ⟨m, rfl, below⟩ := exists_level (enough.2 e mem)
    exact (ih' e mem below).expression spelled
  | get rank isName _ ih =>
    rw [Expr.nesting] at enough
    exact rankedAs_get rank isName (ih enough)
  | grouping _ ih =>
    rw [Expr.nesting] at enough
    obtain ⟨m, rfl, below⟩ := exists_level enough
    exact rankedAs_grouping (ih below)
  | literal value =>
    intro ts spelled
    obtain ⟨t, rfl, shown⟩ := split_singleton spelled
    exact ⟨.literal value, rfl, call_of_primary (primary_of_literal shown)⟩
  | set rank isName _ _ ih ih' =>
    rw [Expr.nesting, Nat.max_le] at enough
    obtain ⟨m, rfl, below⟩ := exists_level enough.2
    exact rankedAs_set rank isName (ih enough.1) (ih' below)
  | super isSign isName =>
    intro ts spelled
    obtain ⟨t, us, rfl, shown, spelled⟩ := split_cons spelled
    obtain ⟨dot, us, rfl, isDot, spelled⟩ := split_cons spelled
    obtain ⟨u, rfl, shown'⟩ := split_singleton spelled
    refine ⟨.super t u, ?_, call_of_primary (.super (type_of_erased shown) (type_of_erased isDot)
      (type_of_erased shown'))⟩
    rw [Expr.erased, Expr.erased, shown, shown', isSign, isName]
  | this isSign =>
    intro ts spelled
    obtain ⟨t, rfl, shown⟩ := split_singleton spelled
    refine ⟨.this t, ?_, call_of_primary (.this (type_of_erased shown))⟩
    rw [Expr.erased, Expr.erased, shown, isSign]
  | unary mem isSign rank _ ih =>
    rw [Expr.nesting] at enough
    obtain ⟨m, rfl, below⟩ := exists_level enough
    exact rankedAs_unary mem isSign rank (ih below)
  | named isName =>
    intro ts spelled
    obtain ⟨t, rfl, shown⟩ := split_singleton spelled
    refine ⟨.named t, ?_, call_of_primary (.named (type_of_erased shown))⟩
    rw [Expr.erased, Expr.erased, shown, isName]

/-- The spelling of a shaped expression is an expression, one level up from those that it needs. -/
theorem expression_of_spelled {e : Expr} (shaped : e.Shaped) {n : Nat} (enough : e.nesting + 1 ≤ n)
    {ts : List Token} (spelled : ts.map Token.erased = e.spelling) :
    Upto Expr.erased (Expression n) ts e := by
  obtain ⟨m, rfl⟩ : ∃ m, n = m + 1 := ⟨n - 1, by omega⟩
  exact (ranked_of_spelled shaped (Nat.le_of_succ_le_succ enough)).expression spelled

end Grammar

end Lox
