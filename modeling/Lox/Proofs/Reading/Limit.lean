import Lox.Proofs.Reading.Simulation
import Lox.Proofs.Rule.Outcome

/-!
# A larger limit on nesting

A limit on nesting does nothing but to refuse what is nested more deeply. What a rule does without
being refused, it also does with a larger limit (`declaration_permits`): two rules with different
limits are run next to each other, and they part only where the first one is refused.
-/

namespace Lox.Rule

variable {α β : Type} {limit : Int}

/-- A rule breaks off because there are more levels of nesting than allowed. -/
def Refused (limit : Int) (r : Rule α) (w : Window) : Prop :=
  ∃ t w', r w = .error (.broken ⟨.tooDeep limit, t⟩) w'

/-- From each window on, a rule is refused or the other one does the same. -/
def Permits (limit : Int) (r r' : Rule α) : Prop := ∀ w, Refused limit r w ∨ r' w = r w

/-- A rule that is refused permits any other. -/
theorem permits_tooDeep (limit : Int) (r : Rule α) : Permits limit (fail (.tooDeep limit)) r :=
  fun w => .inl ⟨w.current, w, rfl⟩

/-- A rule permits itself. -/
theorem Permits.refl (r : Rule α) : Permits limit r r := fun _ => .inr rfl

/-- Sequences permit each other if their parts do. -/
theorem Permits.bind {r r' : Rule α} {f f' : α → Rule β} (h : Permits limit r r')
    (next : ∀ a, Permits limit (f a) (f' a)) : Permits limit (r >>= f) (r' >>= f') := by
  intro w
  rcases h w with ⟨t, w', refused⟩ | same
  · exact .inl ⟨t, w', bind_of_error refused⟩
  · cases first : r w with
    | error e v => exact .inr (by rw [bind_of_error first, bind_of_error (same.trans first)])
    | ok a v =>
      rcases next a v with ⟨t, w', refused⟩ | same'
      · exact .inl ⟨t, w', (bind_of_ok first).trans refused⟩
      · exact .inr (by rw [bind_of_ok first, bind_of_ok (same.trans first), same'])

/-- Loops permit each other if their turns do. -/
theorem Permits.loop {turn turn' : β → Rule (Option β)} (h : ∀ b, Permits limit (turn b) (turn' b))
    (b : β) : Permits limit (loop turn b) (loop turn' b) := by
  have driven : ∀ clock b, Permits limit (loopFor turn clock b) (loopFor turn' clock b) := by
    intro clock
    induction clock with
    | nil => exact fun b => .refl _
    | cons _ clock ih =>
      intro b
      refine (h b).bind fun next => ?_
      cases next with
      | none => exact .refl _
      | some b' => exact ih b'
  exact fun w => driven _ b w

/-- To permit each other is a simulation. -/
def permitting (limit : Int) : Simulation Window Window where
  Matches := Permits limit
  pure a := .refl (pure a)
  bind := Permits.bind
  peek := .refl peek
  read := .refl read
  blame cause t := .refl (blame cause t)
  loop := Permits.loop

/-- Operands and expressions with a limit permit those with as many levels or more. -/
theorem levels_permit (limit limit' : Int) {n n' : Nat} (le : n ≤ n') :
    Permits limit (unary limit n) (unary limit' n') ∧
      Permits limit (expression limit n) (expression limit' n') := by
  induction n generalizing n' with
  | zero =>
    refine ⟨?_, permits_tooDeep limit _⟩
    cases n' with
    | zero => exact (permitting limit).unaryOver (permits_tooDeep _ _) (permits_tooDeep _ _)
    | succ n' => exact (permitting limit).unaryOver (permits_tooDeep _ _) (permits_tooDeep _ _)
  | succ n ih =>
    obtain ⟨n', rfl⟩ := Nat.exists_eq_add_of_le' (Nat.lt_of_lt_of_le (Nat.succ_pos n) le)
    obtain ⟨operands, expressions⟩ := ih (Nat.le_of_succ_le_succ le)
    have assignments := (permitting limit).assignment operands expressions
    exact ⟨(permitting limit).unaryOver operands assignments, assignments⟩

/-- Statements and declarations with a limit permit those with as many levels or more. -/
theorem statements_permit (limit limit' : Int) {n n' : Nat} (le : n ≤ n') :
    Permits limit (statement limit n) (statement limit' n') ∧
      Permits limit (declaration limit n) (declaration limit' n') := by
  induction n generalizing n' with
  | zero =>
    refine ⟨permits_tooDeep limit _, ?_⟩
    cases n' <;> exact (permitting limit).declarationOver (permits_tooDeep _ _)
      (permits_tooDeep _ _)
      (permits_tooDeep _ _)
  | succ n ih =>
    obtain ⟨n', rfl⟩ := Nat.exists_eq_add_of_le' (Nat.lt_of_lt_of_le (Nat.succ_pos n) le)
    obtain ⟨statements, declarations⟩ := ih (Nat.le_of_succ_le_succ le)
    have expressions := (levels_permit limit limit' (Nat.le_of_succ_le_succ le)).2
    have statements' := (permitting limit).statementOver expressions statements declarations
    exact ⟨statements', (permitting limit).declarationOver (levels_permit limit limit' le).2
      ((permitting limit).braced declarations _) statements'⟩

/-- A declaration with a limit permits one with as many levels or more. -/
theorem declaration_permits (limit limit' : Int) {n n' : Nat} (le : n ≤ n') :
    Permits limit (declaration limit n) (declaration limit' n') :=
  (statements_permit limit limit' le).2

end Lox.Rule
