import Lox.Proofs.Reading.Simulation
import Lox.Proofs.Rule.Outcome

/-!
# Counting the levels

Instead of being told how many levels are left, rules can count the levels that they are in: the
count is raised when a level is entered and lowered when it is left, whether the level was read or
not (`nested`). `Counting` are rules that call each other in this way, without any bound but the
limit on the count. There are such rules, and they are determined by how they call each other: they
do what the rules with as many levels as are left do, and the count is as before when they are done
(`Counting.countsAs_statements`).
-/

namespace Lox.Rule

/-- A window and a count of the levels that were entered and not left. -/
structure Counted where
  /-- The window. -/
  window : Window
  /-- The count. -/
  nesting : Int

/-- The window is moved beside the count. -/
instance : Windowed Counted where
  window := Counted.window
  advanced s := (s.window.advanced.1, { s with window := s.window.advanced.2 })

variable {α β : Type} {limit : Int}

/-- What is read one level further down, unless there are as many levels as allowed. The level is
left whatever comes of it. -/
def nested (limit : Int) (r : RuleIn Counted α) : RuleIn Counted α := fun s =>
  if limit ≤ s.nesting then fail (.tooDeep limit) s
  else
    match r { s with nesting := s.nesting + 1 } with
    | .ok a s' => .ok a { s' with nesting := s'.nesting - 1 }
    | .error e s' => .error e { s' with nesting := s'.nesting - 1 }

/-- Rules that count the levels and call each other as the grammar does. -/
structure Counting (limit : Int) where
  /-- Reads an operand of binary operators. -/
  unary : RuleIn Counted Expr
  /-- Reads an expression. -/
  expression : RuleIn Counted Expr
  /-- Reads a statement. -/
  statement : RuleIn Counted Stmt
  /-- Reads a declaration. -/
  declaration : RuleIn Counted Stmt
  /-- The operand of a unary operator is a level. -/
  unary_eq : unary = unaryOver (nested limit unary) expression
  /-- An expression is a level. -/
  expression_eq : expression = nested limit (assignment unary expression)
  /-- A statement is a level. -/
  statement_eq : statement = nested limit (statementOver expression statement declaration)
  /-- The body of a function is a level. -/
  declaration_eq :
    declaration = declarationOver expression (nested limit (block declaration)) statement

/-- What comes of a rule, with a count beside the window that it leaves. -/
def withNesting (nesting : Int) :
    EStateM.Result Interrupt Window α → EStateM.Result Interrupt Counted α
  | .ok a w => .ok a ⟨w, nesting⟩
  | .error e w => .error e ⟨w, nesting⟩

/-- Where a count stands, a rule that counts does what one that does not count does, and the count
is as before afterwards. -/
def CountsAs (nesting : Int) (c : RuleIn Counted α) (r : Rule α) : Prop :=
  ∀ w, c ⟨w, nesting⟩ = withNesting nesting (r w)

section Steps

variable {nesting : Int}

/-- A result that is given without reading leaves the count alone. -/
theorem countsAs_pure (a : α) : CountsAs nesting (pure a) (pure a) := fun _ => rfl

/-- Sequences leave the count as it was if their parts do. -/
theorem CountsAs.bind {c : RuleIn Counted α} {r : Rule α} {f : α → RuleIn Counted β}
    {f' : α → Rule β} (h : CountsAs nesting c r) (next : ∀ a, CountsAs nesting (f a) (f' a)) :
    CountsAs nesting (c >>= f) (r >>= f') := by
  intro w
  have first := h w
  cases ran : r w with
  | ok a v =>
    rw [ran] at first
    rw [bind_of_ok ran, ← next a v]
    simp only [Bind.bind, EStateM.bind, first, withNesting]
  | error e v =>
    rw [ran] at first
    rw [bind_of_error ran]
    simp only [Bind.bind, EStateM.bind, first, withNesting]

/-- Reading a token leaves the count alone. -/
theorem countsAs_read : CountsAs nesting read read := by
  intro w
  have moved : Windowed.advanced (Counted.mk w nesting) =
      (w.advanced.1, ⟨w.advanced.2, nesting⟩) := rfl
  rw [read_eq, read, moved]
  rcases w.advanced with ⟨_ | e, w'⟩ <;> rfl

/-- Loops leave the count as it was if their turns do. -/
theorem CountsAs.loop {turn : β → RuleIn Counted (Option β)} {turn' : β → Rule (Option β)}
    (h : ∀ b, CountsAs nesting (turn b) (turn' b)) (b : β) :
    CountsAs nesting (loop turn b) (loop turn' b) := by
  have driven : ∀ clock b, CountsAs nesting (loopFor turn clock b) (loopFor turn' clock b) := by
    intro clock
    induction clock with
    | nil => exact fun b => countsAs_pure b
    | cons _ clock ih =>
      intro b
      refine (h b).bind fun next => ?_
      cases next with
      | none => exact countsAs_pure b
      | some b' => exact ih b'
  exact fun w => driven w.clock b w

/-- To do the same and leave the count as it was is a simulation. -/
def countingAs (nesting : Int) : Simulation Counted Window where
  Matches := CountsAs nesting
  pure := countsAs_pure
  bind := CountsAs.bind
  peek := fun _ => rfl
  read := countsAs_read
  blame _ _ := fun _ => rfl
  loop := CountsAs.loop

/-- Where the limit is reached no further level is entered. -/
theorem countsAs_nested_of_le (reached : limit ≤ nesting) (c : RuleIn Counted α) :
    CountsAs nesting (nested limit c) (fail (.tooDeep limit)) := by
  intro w
  rw [nested, if_pos reached]
  exact (countingAs nesting).fail (.tooDeep limit) w

/-- Below the limit a level is entered and left. -/
theorem CountsAs.nested {c : RuleIn Counted α} {r : Rule α} (below : nesting < limit)
    (h : CountsAs (nesting + 1) c r) : CountsAs nesting (nested limit c) r := by
  intro w
  rw [Rule.nested, if_neg (Int.not_le.2 below), h w]
  cases r w <;> simp [withNesting]

end Steps

/-! ## Rules that count -/

/-- How many levels are left. -/
def levelsLeft (limit nesting : Int) : Nat := (limit - nesting).toNat

/-- Where the limit is reached no level is left. -/
theorem levelsLeft_of_le {nesting : Int} (reached : limit ≤ nesting) :
    levelsLeft limit nesting = 0 := by
  rw [levelsLeft]
  omega

/-- Below the limit a level can be entered, and then there is one fewer left. -/
theorem levelsLeft_of_lt {nesting : Int} (below : nesting < limit) :
    levelsLeft limit nesting = levelsLeft limit (nesting + 1) + 1 := by
  rw [levelsLeft, levelsLeft]
  omega

section Calls

variable {unary expression : RuleIn Counted Expr} {statement declaration : RuleIn Counted Stmt}
  {nesting : Int}

/-- Operands are read with the levels that are left, if their operands and the expressions in them
are. -/
theorem countsAs_unary
    (hu : nesting < limit →
      CountsAs (nesting + 1) unary (Rule.unary limit (levelsLeft limit (nesting + 1))))
    (he : CountsAs nesting expression (Rule.expression limit (levelsLeft limit nesting))) :
    CountsAs nesting (unaryOver (nested limit unary) expression)
      (Rule.unary limit (levelsLeft limit nesting)) := by
  -- Below the limit a level can be entered, and there the inner rules count one more.
  rcases Int.lt_or_le nesting limit with below | reached
  · rw [levelsLeft_of_lt below] at he ⊢
    exact (countingAs nesting).unaryOver ((hu below).nested below) he
  · rw [levelsLeft_of_le reached] at he ⊢
    exact (countingAs nesting).unaryOver (countsAs_nested_of_le reached _) he

/-- Expressions are read with the levels that are left, if their parts are. -/
theorem countsAs_expression
    (hu : nesting < limit →
      CountsAs (nesting + 1) unary (Rule.unary limit (levelsLeft limit (nesting + 1))))
    (he : nesting < limit →
      CountsAs (nesting + 1) expression (Rule.expression limit (levelsLeft limit (nesting + 1)))) :
    CountsAs nesting (nested limit (assignment unary expression))
      (Rule.expression limit (levelsLeft limit nesting)) := by
  rcases Int.lt_or_le nesting limit with below | reached
  · rw [levelsLeft_of_lt below]
    exact ((countingAs _).assignment (hu below) (he below)).nested below
  · rw [levelsLeft_of_le reached]
    exact countsAs_nested_of_le reached _

/-- Statements are read with the levels that are left, if their parts are. -/
theorem countsAs_statement
    (he : ∀ nesting, CountsAs nesting expression (Rule.expression limit (levelsLeft limit nesting)))
    (hs : nesting < limit →
      CountsAs (nesting + 1) statement (Rule.statement limit (levelsLeft limit (nesting + 1))))
    (hd : nesting < limit →
      CountsAs (nesting + 1) declaration
        (Rule.declaration limit (levelsLeft limit (nesting + 1)))) :
    CountsAs nesting (nested limit (statementOver expression statement declaration))
      (Rule.statement limit (levelsLeft limit nesting)) := by
  rcases Int.lt_or_le nesting limit with below | reached
  · rw [levelsLeft_of_lt below]
    exact ((countingAs _).statementOver (he _) (hs below) (hd below)).nested below
  · rw [levelsLeft_of_le reached]
    exact countsAs_nested_of_le reached _

/-- Declarations are read with the levels that are left, if their parts are. -/
theorem countsAs_declaration
    (he : ∀ nesting, CountsAs nesting expression (Rule.expression limit (levelsLeft limit nesting)))
    (hd : nesting < limit →
      CountsAs (nesting + 1) declaration (Rule.declaration limit (levelsLeft limit (nesting + 1))))
    (hs : CountsAs nesting statement (Rule.statement limit (levelsLeft limit nesting))) :
    CountsAs nesting (declarationOver expression (nested limit (block declaration)) statement)
      (Rule.declaration limit (levelsLeft limit nesting)) := by
  have he := he nesting
  rcases Int.lt_or_le nesting limit with below | reached
  · rw [levelsLeft_of_lt below] at he hs ⊢
    exact (countingAs nesting).declarationOver he
      (((countingAs _).braced (hd below) _).nested below) hs
  · rw [levelsLeft_of_le reached] at he hs ⊢
    exact (countingAs nesting).declarationOver he (countsAs_nested_of_le reached _) hs

end Calls

/-- The rules that do what those with as many levels as are left do. -/
def counting (limit : Int) : Counting limit :=
  let counted {α : Type} (r : Nat → Rule α) : RuleIn Counted α := fun s =>
    withNesting s.nesting (r (levelsLeft limit s.nesting) s.window)
  { unary := counted (Rule.unary limit)
    expression := counted (Rule.expression limit)
    statement := counted (Rule.statement limit)
    declaration := counted (Rule.declaration limit)
    unary_eq := funext fun s =>
      (countsAs_unary (fun _ _ => rfl) (fun _ => rfl) s.window).symm
    expression_eq := funext fun s =>
      (countsAs_expression (fun _ _ => rfl) (fun _ _ => rfl) s.window).symm
    statement_eq := funext fun s =>
      (countsAs_statement (fun _ _ => rfl) (fun _ _ => rfl) (fun _ _ => rfl) s.window).symm
    declaration_eq := funext fun s =>
      (countsAs_declaration (fun _ _ => rfl) (fun _ _ => rfl) (fun _ => rfl) s.window).symm }

namespace Counting

variable (C : Counting limit)

/-- Rules that count read operands and expressions with the levels that are left. -/
theorem countsAs_levels (nesting : Int) :
    CountsAs nesting C.unary (Rule.unary limit (levelsLeft limit nesting)) ∧
      CountsAs nesting C.expression (Rule.expression limit (levelsLeft limit nesting)) := by
  -- By induction on the levels that are left, since the rules that count have no bound of their
  -- own.
  induction count : levelsLeft limit nesting using Nat.strongRecOn generalizing nesting with
  | ind n ih =>
    have deeper (below : nesting < limit) := ih (levelsLeft limit (nesting + 1))
      (by rw [← count, levelsLeft_of_lt below]; exact Nat.lt_succ_self _) (nesting + 1) rfl
    have expressions : CountsAs nesting C.expression (Rule.expression limit n) := by
      rw [C.expression_eq, ← count]
      exact countsAs_expression (fun below => (deeper below).1) (fun below => (deeper below).2)
    refine ⟨?_, expressions⟩
    rw [← count] at expressions ⊢
    rw [C.unary_eq]
    exact countsAs_unary (fun below => (deeper below).1) expressions

/-- Rules that count read statements and declarations with the levels that are left. -/
theorem countsAs_statements (nesting : Int) :
    CountsAs nesting C.statement (Rule.statement limit (levelsLeft limit nesting)) ∧
      CountsAs nesting C.declaration (Rule.declaration limit (levelsLeft limit nesting)) := by
  have expressions (nesting : Int) := (C.countsAs_levels nesting).2
  -- Again by induction on the levels that are left.
  induction count : levelsLeft limit nesting using Nat.strongRecOn generalizing nesting with
  | ind n ih =>
    have deeper (below : nesting < limit) := ih (levelsLeft limit (nesting + 1))
      (by rw [← count, levelsLeft_of_lt below]; exact Nat.lt_succ_self _) (nesting + 1) rfl
    have statements : CountsAs nesting C.statement (Rule.statement limit n) := by
      rw [C.statement_eq, ← count]
      exact countsAs_statement expressions (fun below => (deeper below).1)
        (fun below => (deeper below).2)
    refine ⟨statements, ?_⟩
    rw [← count] at statements ⊢
    rw [C.declaration_eq]
    exact countsAs_declaration expressions (fun below => (deeper below).2) statements

end Counting

end Lox.Rule
