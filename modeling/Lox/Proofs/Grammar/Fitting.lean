import Lox.Proofs.Grammar.Expression
import Lox.Proofs.Token.Valid

/-!
# The expressions of a text

An expression that is read from the tokens of a text is legible and has a shape that needs no
parentheses, and it is not nested deeper than the phrase that it was read from
(`ensures_expression`).
-/

namespace Lox

namespace Grammar

variable {α : Type} {c n : Nat}

/-- A token is as one that was read from a text, and it is no `for` unless a level of the grammar
may cost three levels of the tree. -/
def Allowed (c : Nat) (t : Token) : Prop := t.Valid ∧ (t.type = .forKw → 3 ≤ c)

/-- What the phrases of a language stand for has a property, if their tokens are allowed. -/
def Ensures (c : Nat) (P : α → Prop) (L : Lang α) : Prop :=
  ∀ ⦃ts a⦄, (∀ t ∈ ts, Allowed c t) → L ts a → P a

/-! ## Rows -/

section Rows

variable {P : α → Prop} {L : Lang α}

/-- A language without phrases ensures anything. -/
theorem ensures_nothing : Ensures c P Nothing := fun _ _ _ phrase => phrase.elim

/-- All of a row are as each is. -/
theorem ensures_many (h : Ensures c P L) : Ensures c (fun as => ∀ a ∈ as, P a) (Many L) := by
  intro ts as allowed phrase
  induction phrase with
  | nil => exact List.forall_mem_nil _
  | cons first _ ih =>
    rw [List.forall_mem_append] at allowed
    exact List.forall_mem_cons.2 ⟨h allowed.1 first, ih allowed.2⟩

/-- What may be missing is as it is when it is there. -/
theorem ensures_maybe (h : Ensures c P L) : Ensures c (fun a => ∀ b ∈ a, P b) (Maybe L) := by
  intro ts a allowed phrase
  cases phrase with
  | none => nofun
  | some part =>
    rintro b ⟨⟩
    exact h allowed part

/-- All of a list are as each is. -/
theorem ensures_listed (h : Ensures c P L) : Ensures c (fun as => ∀ a ∈ as, P a) (Listed L) := by
  -- The rest of the list first, by induction on its items.
  have further : Ensures c (fun as => ∀ a ∈ as, P a) (Further L) := by
    intro ts as allowed phrase
    induction phrase with
    | nil | comma => exact List.forall_mem_nil _
    | cons _ first _ ih =>
      rw [List.forall_mem_cons, List.forall_mem_append] at allowed
      exact List.forall_mem_cons.2 ⟨h allowed.2.1 first, ih allowed.2.2⟩
  intro ts as allowed phrase
  cases phrase with
  | nil => exact List.forall_mem_nil _
  | cons first more =>
    rw [List.forall_mem_append] at allowed
    exact List.forall_mem_cons.2 ⟨h allowed.1 first, further allowed.2 more⟩

end Rows

/-! ## Expressions -/

/-- An expression is as one that was read where a rank was asked for, with some levels below. -/
structure Fits (n k : Nat) (e : Expr) : Prop where
  /-- It needs no parentheses beside its own. -/
  shaped : e.Shaped
  /-- Its tokens can be read back. -/
  legible : e.Legible
  /-- It holds together as tightly as was asked for. -/
  rank : k ≤ e.rank
  /-- It has no more levels than there are. -/
  nesting : e.nesting ≤ n

/-- An expression is as one that was read where any was asked for, and is a level itself. -/
structure FitsInside (n : Nat) (e : Expr) : Prop where
  /-- It needs no parentheses beside its own. -/
  shaped : e.Shaped
  /-- Its tokens can be read back. -/
  legible : e.Legible
  /-- It has no more levels than there are. -/
  nesting : e.nesting + 1 ≤ n

/-- A token of a type that all tokens have the same text of is the one of its type. -/
theorem isSign_of_allowed {t : Token} (h : Allowed c t) {type : TokenType} (shown : t.type = type)
    (some : type.text ≠ "" := by decide) : t.IsSign type := by
  have sign := h.1.sign (shown ▸ some)
  rwa [shown] at sign

/-- A sign has the text of its type. -/
theorem fixed_of_isSign {t : Token} (h : t.IsSign t.type) (some : t.type.text ≠ "") : t.Fixed := by
  have text : t.lexeme = Option.some t.type.text := congrArg Token.lexeme h
  refine ⟨?_, some⟩
  rw [Token.spelling, text]
  rfl

section Expressions

variable {D L : Lang Expr}

/-- Literals, names and expressions in parentheses bind as tightly as anything. -/
theorem ensures_primary (h : Ensures c (FitsInside n) L) : Ensures c (Fits n 8) (Primary L) := by
  intro ts e allowed phrase
  have literal : ∀ {value : Literal}, value.Legible → Fits n 8 (.literal value) := fun legible =>
    ⟨.literal _, .literal legible, Nat.le_refl 8, Nat.zero_le n⟩
  cases phrase with
  | false _ | true _ | nil _ => exact literal trivial
  | @number t shown =>
    obtain ⟨x, value, plain⟩ := (allowed t (List.mem_singleton_self t)).1.number shown
    rw [value]
    exact literal plain
  | @string t shown =>
    obtain ⟨s, text, closed⟩ := (allowed t (List.mem_singleton_self t)).1.string shown
    rw [text]
    exact literal closed
  | @this t shown =>
    have sign := isSign_of_allowed (allowed t (List.mem_singleton_self t)) shown
    exact ⟨.this sign, .this t, Nat.le_refl 8, Nat.zero_le n⟩
  | @super keyword dot method isSuper _ isName =>
    have sign := isSign_of_allowed (allowed keyword (by simp)) isSuper
    obtain ⟨name, word⟩ := (allowed method (by simp)).1.name isName
    exact ⟨.super sign name, .super word, Nat.le_refl 8, Nat.zero_le n⟩
  | @named t isName =>
    obtain ⟨name, word⟩ := (allowed t (List.mem_singleton_self t)).1.name isName
    exact ⟨.named name, .named word, Nat.le_refl 8, Nat.zero_le n⟩
  | @grouping left right ts e _ inner _ =>
    have fits := h (fun t mem => allowed t (by simp [mem])) inner
    exact ⟨.grouping fits.shaped, .grouping fits.legible, Nat.le_refl 8, fits.nesting⟩

/-- Calls and properties bind as tightly as what they are made of. -/
theorem fits_trailers (h : Ensures c (FitsInside n) L) {e e' : Expr} {ts : List Token}
    (phrase : Trailers L e ts e') (allowed : ∀ t ∈ ts, Allowed c t) (fits : Fits n 8 e) :
    Fits n 8 e' := by
  -- By induction on the trailers. What comes before a trailer is an operand of the highest rank,
  -- and so is the whole.
  induction phrase with
  | nil => exact fits
  | @call callee e left right ts us arguments _ list isRight _ ih =>
    simp only [List.forall_mem_cons, List.forall_mem_append] at allowed
    obtain ⟨-, inner, last, more⟩ := allowed
    have all := ensures_listed h inner list
    have rank : callee.rank = 8 := Nat.le_antisymm (Expr.rank_le callee) fits.rank
    refine ih more ⟨.call rank (isSign_of_allowed last isRight) fits.shaped
      (fun e mem => (all e mem).shaped), .call fits.legible (fun e mem => (all e mem).legible),
      Nat.le_refl 8, Nat.max_le.2 ⟨fits.nesting, Expr.nestingAll_le.2 ?_⟩⟩
    exact fun e mem => (all e mem).nesting
  | @get object e dot name ts _ isName _ ih =>
    simp only [List.forall_mem_cons] at allowed
    obtain ⟨-, last, more⟩ := allowed
    obtain ⟨plain, word⟩ := last.1.name isName
    have rank : object.rank = 8 := Nat.le_antisymm (Expr.rank_le object) fits.rank
    exact ih more ⟨.get rank plain fits.shaped, .get word fits.legible, Nat.le_refl 8, fits.nesting⟩

/-- Calls bind as tightly as anything. -/
theorem ensures_call (h : Ensures c (FitsInside n) L) : Ensures c (Fits n 8) (Call L) := by
  rintro _ _ allowed ⟨first, more⟩
  rw [List.forall_mem_append] at allowed
  exact fits_trailers h more allowed.2 (ensures_primary h allowed.1 first)

/-- Unary operators bind as tightly as what they stand in front of. -/
theorem ensures_unaryOver (h : Ensures c (fun e => ∃ m, n = m + 1 ∧ Fits m 7 e) D)
    (h' : Ensures c (FitsInside n) L) : Ensures c (Fits n 7) (UnaryOver D L) := by
  intro ts e allowed phrase
  cases phrase with
  | @operator operator ts e mem operand =>
    rw [List.forall_mem_cons] at allowed
    obtain ⟨m, rfl, fits⟩ := h allowed.2 operand
    have some : operator.type.text ≠ "" := by
      have either : operator.type = .bang ∨ operator.type = .minus := by simpa using mem
      rcases either with shown | shown <;> rw [shown] <;> decide
    have sign := isSign_of_allowed allowed.1 rfl some
    exact ⟨.unary mem sign fits.rank fits.shaped,
      .unary mem (fixed_of_isSign sign some) fits.legible, Nat.le_refl 7,
      Nat.succ_le_succ fits.nesting⟩
  | call phrase =>
    have fits := ensures_call h' allowed phrase
    exact ⟨fits.shaped, fits.legible, Nat.le_trans (by decide) fits.rank, fits.nesting⟩

/-- A chain of operators of a rank has this rank, if its operands bind tighter. -/
theorem ensures_chain {operators : List TokenType} {join : Expr → Token → Expr → Expr} {k : Nat}
    (joins : ∀ left operator right, Allowed c operator → operator.type ∈ operators →
      Fits n k left → Fits n (k + 1) right → Fits n k (join left operator right))
    (h : Ensures c (Fits n (k + 1)) L) : Ensures c (Fits n k) (Chain operators join L) := by
  rintro _ _ allowed ⟨first, more⟩
  rw [List.forall_mem_append] at allowed
  obtain ⟨here, there⟩ := allowed
  have fits := h here first
  have start : Fits n k _ :=
    ⟨fits.shaped, fits.legible, Nat.le_of_succ_le fits.rank, fits.nesting⟩
  clear first fits
  -- The left side of an operation is all that comes before it.
  induction more with
  | nil => exact start
  | cons mem operand _ ih =>
    simp only [List.forall_mem_cons, List.forall_mem_append] at there
    obtain ⟨sign, second, others⟩ := there
    exact ih others (joins _ _ _ sign mem start (h second operand))

/-- Arithmetic, comparisons and equalities have the rank of their operator. -/
theorem fits_binary {k : Nat} {left right : Expr} {operator : Token} (allowed : Allowed c operator)
    (rank : operatorRank operator.type = k) (high : 3 ≤ k) (h : Fits n k left)
    (h' : Fits n (k + 1) right) : Fits n k (.binary left operator right) := by
  subst rank
  have some : operator.type.text ≠ "" := by
    revert high
    cases operator.type <;> decide
  have sign := isSign_of_allowed allowed rfl some
  exact ⟨.binary high sign h.rank h'.rank h.shaped h'.shaped,
    .binary (fixed_of_isSign sign some) h.legible h'.legible, Nat.le_refl _,
    Nat.max_le.2 ⟨h.nesting, h'.nesting⟩⟩

/-- Logical operations have the rank of their operator. -/
theorem fits_logical {k : Nat} {left right : Expr} {operator : Token}
    (allowed : Allowed c operator) (mem : operator.type ∈ [TokenType.orKw, .andKw])
    (rank : operatorRank operator.type = k) (h : Fits n k left) (h' : Fits n (k + 1) right) :
    Fits n k (.logical left operator right) := by
  subst rank
  have some : operator.type.text ≠ "" := by
    have either : operator.type = .orKw ∨ operator.type = .andKw := by simpa using mem
    rcases either with shown | shown <;> rw [shown] <;> decide
  have sign := isSign_of_allowed allowed rfl some
  exact ⟨.logical mem sign h.rank h'.rank h.shaped h'.shaped,
    .logical (fixed_of_isSign sign some) h.legible h'.legible, Nat.le_refl _,
    Nat.max_le.2 ⟨h.nesting, h'.nesting⟩⟩

/-- A tier of binary operators has the rank of all of them. -/
theorem ensures_binary {operators : List TokenType} {k : Nat}
    (ranks : ∀ type ∈ operators, operatorRank type = k) (high : 3 ≤ k)
    (h : Ensures c (Fits n (k + 1)) L) : Ensures c (Fits n k) (Chain operators .binary L) :=
  ensures_chain (fun _ _ _ allowed mem => fits_binary allowed (ranks _ mem) high) h

/-- A tier of logical operators has the rank of all of them. -/
theorem ensures_logical {operators : List TokenType} {k : Nat}
    (ranks : ∀ type ∈ operators, operatorRank type = k ∧ type ∈ [TokenType.orKw, .andKw])
    (h : Ensures c (Fits n (k + 1)) L) : Ensures c (Fits n k) (Chain operators .logical L) :=
  ensures_chain (fun _ _ _ allowed mem =>
    fits_logical allowed (ranks _ mem).2 (ranks _ mem).1) h

/-- Expressions of all tiers are as those that were read. -/
theorem ensures_logicOr (h : Ensures c (Fits n 7) L) : Ensures c (Fits n 1) (LogicOr L) := by
  have factor : Ensures c (Fits n 6) (Factor L) := ensures_binary (by decide) (by decide) h
  have term : Ensures c (Fits n 5) (Term L) := ensures_binary (by decide) (by decide) factor
  have comparison : Ensures c (Fits n 4) (Comparison L) :=
    ensures_binary (by decide) (by decide) term
  have equality : Ensures c (Fits n 3) (Equality L) :=
    ensures_binary (by decide) (by decide) comparison
  have logicAnd : Ensures c (Fits n 2) (LogicAnd L) := ensures_logical (by decide) equality
  exact ensures_logical (by decide) logicAnd

/-- Assignments are as those that were read. -/
theorem ensures_assignment (h : Ensures c (Fits n 7) D) (h' : Ensures c (FitsInside n) L) :
    Ensures c (FitsInside (n + 1)) (Assignment D L) := by
  intro ts e allowed phrase
  cases phrase with
  | @named name equals ts value isName _ inner =>
    simp only [List.forall_mem_cons] at allowed
    obtain ⟨first, -, more⟩ := allowed
    obtain ⟨plain, word⟩ := first.1.name isName
    have fits := h' more inner
    exact ⟨.assign plain fits.shaped, .assign word fits.legible, Nat.succ_le_succ fits.nesting⟩
  | @property dot name equals ts us object value call _ isName _ inner =>
    simp only [List.forall_mem_cons, List.forall_mem_append] at allowed
    obtain ⟨front, -, second, -, more⟩ := allowed
    obtain ⟨plain, word⟩ := second.1.name isName
    have fits := ensures_call h' front call
    have fits' := h' more inner
    have rank : object.rank = 8 := Nat.le_antisymm (Expr.rank_le object) fits.rank
    exact ⟨.set rank plain fits.shaped fits'.shaped, .set word fits.legible fits'.legible,
      Nat.succ_le_succ (Nat.max_le.2 ⟨fits.nesting, fits'.nesting⟩)⟩
  | logicOr phrase =>
    have fits := ensures_logicOr h allowed phrase
    exact ⟨fits.shaped, fits.legible, Nat.succ_le_succ fits.nesting⟩

end Expressions

/-- Operands and expressions are as those that were read, on every level. -/
theorem ensures_levels (c n : Nat) :
    Ensures c (Fits n 7) (Unary n) ∧ Ensures c (FitsInside n) (Expression n) := by
  induction n with
  | zero => exact ⟨ensures_unaryOver ensures_nothing ensures_nothing, ensures_nothing⟩
  | succ n ih =>
    obtain ⟨unary, expression⟩ := ih
    have up : Ensures c (FitsInside (n + 1)) (Expression (n + 1)) :=
      ensures_assignment unary expression
    exact ⟨ensures_unaryOver (fun _ _ allowed phrase => ⟨n, rfl, unary allowed phrase⟩) up, up⟩

/-- Expressions are as those that were read, and are one level. -/
theorem ensures_expression (c n : Nat) : Ensures c (FitsInside n) (Expression n) :=
  (ensures_levels c n).2

end Grammar

end Lox
