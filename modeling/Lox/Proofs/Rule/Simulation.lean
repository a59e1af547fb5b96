import Lox.Rule.Loop

/-!
# Simulations

Two runs of the same rule, in different states or with different rules for its parts, are alike in
many ways. A `Simulation` is such a way: it relates rules in states of one kind to rules in states
of another, holds of the steps that rules are made of, and is kept by sequences and loops. So every
rule that is made of these steps is related to itself as soon as the rules for its parts are.
-/

namespace Lox.Rule

variable {σ τ : Type} [Windowed σ] [Windowed τ]

/-- A relation between rules that holds of single steps and is kept by putting steps together. -/
structure Simulation (σ τ : Type) [Windowed σ] [Windowed τ] where
  /-- The relation. -/
  Matches : ∀ {α : Type}, RuleIn σ α → RuleIn τ α → Prop
  /-- A result that is given without reading matches itself. -/
  pure : ∀ {α : Type} (a : α), Matches (Pure.pure a) (Pure.pure a)
  /-- Sequences match if both parts do. -/
  bind : ∀ {α β : Type} {r : RuleIn σ α} {r' : RuleIn τ α} {f : α → RuleIn σ β}
    {f' : α → RuleIn τ β}, Matches r r' → (∀ a, Matches (f a) (f' a)) →
    Matches (r >>= f) (r' >>= f')
  /-- Looking at the token to be read matches itself. -/
  peek : Matches peek peek
  /-- Reading a token matches itself. -/
  read : Matches read read
  /-- Blaming a token matches itself. -/
  blame : ∀ {α : Type} (cause : SyntaxCause) (t : Token),
    Matches (blame cause t : RuleIn σ α) (blame cause t)
  /-- Loops match if their turns do. -/
  loop : ∀ {β : Type} {turn : β → RuleIn σ (Option β)} {turn' : β → RuleIn τ (Option β)},
    (∀ b, Matches (turn b) (turn' b)) → ∀ b, Matches (loop turn b) (loop turn' b)

namespace Simulation

variable (S : Simulation σ τ) {α β : Type}

/-- Changing results keeps a match. -/
theorem map {r : RuleIn σ α} {r' : RuleIn τ α} (h : S.Matches r r') (f : α → β) :
    S.Matches (f <$> r) (f <$> r') := by
  rw [map_eq_pure_bind, map_eq_pure_bind]
  exact S.bind h fun a => S.pure (f a)

/-- Blaming the token to be read. -/
theorem fail (cause : SyntaxCause) : S.Matches (fail cause : RuleIn σ α) (fail cause) :=
  S.bind S.peek (S.blame cause)

/-- Asking for the type of the token to be read. -/
theorem comes (type : TokenType) : S.Matches (comes type) (comes type) :=
  S.bind S.peek fun t => S.pure (t.type == type)

/-- Reading a token of some types. -/
theorem accept (types : List TokenType) : S.Matches (accept types) (accept types) := by
  refine S.bind S.peek fun t => ?_
  cases types.contains t.type with
  | true => exact S.map S.read some
  | false => exact S.pure none

/-- Reading a token of an expected type. -/
theorem expect (type : TokenType) (message : String) :
    S.Matches (expect type message) (expect type message) := by
  refine S.bind S.peek fun t => ?_
  cases t.isEof with
  | true => exact S.blame _ t
  | false =>
    cases t.type == type with
    | true => exact S.read
    | false => exact S.blame _ t

/-- Reading a row of items up to a closing brace, and the brace. -/
theorem braced {item : RuleIn σ α} {item' : RuleIn τ α} (h : S.Matches item item')
    (message : String) : S.Matches (braced item message) (braced item' message) := by
  refine S.bind (S.map (S.loop (fun done => ?_) []) List.reverse) fun all =>
    S.bind (S.expect _ _) fun _ => S.pure all
  refine S.bind S.peek fun t => ?_
  cases t.type == .rightBrace || t.isEof with
  | true => exact S.pure none
  | false => exact S.bind h fun a => S.pure _

end Simulation

end Lox.Rule
