import Lox.Program.Run
import Lox.Proofs.Reading.Counter
import Lox.Proofs.Reading.Limit

/-!
# What the limit on nesting does

The limit on nesting only adds errors: what is read without exceeding it is read in the same way
with any larger limit, declaration by declaration and program by program (`limit_only_refuses`). And
the levels of one declaration do not count for the next: rules that count the levels that they enter
leave the count as it was, whatever comes of the declaration.
-/

namespace Lox

variable {limit limit' : Int}

/-- The code of the error for too much nesting. -/
def SyntaxError.IsTooDeep (e : SyntaxError) : Prop := e.cause.code = "P007"

/-- A declaration is refused because of its nesting, or it is read in the same way with a larger
limit. -/
theorem declaration_of_le (le : limit ≤ limit') (w : Window) :
    (∃ e w', declaration limit w = .error (.broken e) w' ∧ e.IsTooDeep) ∨
      declaration limit' w = declaration limit w := by
  rcases Rule.declaration_permits limit limit' (Int.toNat_le_toNat le) w with
    ⟨t, w', refused⟩ | same
  · exact .inl ⟨_, w', refused, rfl⟩
  · exact .inr same

/-- The error that a step records, if it does. -/
def Step.error? : Step → Option SyntaxError
  | finished | yielded _ _ => none
  | skipped e _ _ => some e
  | interrupted skipping _ _ => skipping

/-- A step that records no error for too much nesting is the same with a larger limit. -/
theorem step_of_le (le : limit ≤ limit') {w : Window}
    (shallow : ∀ e ∈ (step limit w).error?, ¬ e.IsTooDeep) : step limit' w = step limit w := by
  rcases declaration_of_le le w with ⟨e, w', refused, deep⟩ | same
  · cases start : w.atEnd with
    | true => rw [step, step, if_pos start, if_pos start]
    | false =>
      -- The error is recorded, however recovery goes on.
      refine absurd deep (shallow e ?_)
      rw [step, start, refused]
      simp only [Bool.false_eq_true, ↓reduceIte]
      split <;> rfl
  · rw [step, step, same]

/-- A run that records no error for too much nesting is the same with a larger limit. -/
theorem runFor_of_le (le : limit ≤ limit') (clock : List Token) (w : Window)
    (shallow : ∀ e ∈ (runFor limit clock w).errors, ¬ e.IsTooDeep) :
    runFor limit' clock w = runFor limit clock w := by
  -- By induction on the clock: a step is the same with the larger limit unless it breaks off for
  -- too much nesting.
  induction clock generalizing w with
  | nil => rfl
  | cons _ clock ih =>
    rw [runFor] at shallow ⊢
    rw [runFor]
    cases first : step limit w with
    | finished =>
      rw [step_of_le le (by rw [first]; simp [Step.error?]), first]
    | yielded s after =>
      rw [first] at shallow
      rw [step_of_le le (by rw [first]; simp [Step.error?]), first]
      simp only [ih after shallow]
    | skipped e failed after =>
      rw [first] at shallow
      obtain ⟨here, later⟩ := List.forall_mem_cons.1 shallow
      rw [step_of_le le (by rw [first]; simpa [Step.error?] using here), first]
      simp only [ih after later]
    | interrupted skipping e last =>
      rw [first] at shallow
      rw [step_of_le le (by rw [first]; simpa [Step.error?, Run.errors] using shallow), first]

/-- **The limit only refuses.** Take a limit and a larger one. From any window on, a declaration is
refused with the error `P007`, or what comes of it, the window behind it included, is the same with
the larger limit. So a run that records no such error, over any feed of tokens, is the same run with
the larger limit, statement by statement, error by error and window by window. And there are rules
that count the levels which they enter, and whatever rules do so, a declaration that is read by them
leaves the count as it was, whether it succeeds or breaks off, and is otherwise what a declaration
with as many levels as the count leaves is. -/
theorem limit_only_refuses (le : limit ≤ limit') :
    (∀ w, (∃ e w', declaration limit w = .error (.broken e) w' ∧ e.cause.code = "P007") ∨
      declaration limit' w = declaration limit w) ∧
    (∀ (f : Feed) (r : Run), f.run limit = .ok r → (∀ e ∈ r.errors, e.cause.code ≠ "P007") →
      f.run limit' = .ok r) ∧
    Nonempty (Rule.Counting limit) ∧
    ∀ (C : Rule.Counting limit) (s : Rule.Counted),
      C.declaration s = Rule.withNesting s.nesting
        (Rule.declaration limit (limit - s.nesting).toNat s.window) := by
  refine ⟨declaration_of_le le, fun f r ran shallow => ?_, ⟨Rule.counting limit⟩, fun C s =>
    (C.countsAs_statements s.nesting).2 s.window⟩
  cases opened : Window.open? f with
  | error e =>
    rw [Feed.run, opened] at ran
    cases ran
  | ok w =>
    rw [Feed.run, opened] at ran ⊢
    obtain rfl := Except.ok.inj ran
    exact congrArg Except.ok (runFor_of_le le w.clock w shallow)

/-- The tokens of a statement that takes three levels: its own, that of the expression and that of
the operand. -/
def printNegation : List Token :=
  [(.printKw, "print"), (.minus, "-"), (.identifier, "a"), (.semicolon, ";")].map
    fun (type, text) => ⟨type, some text, some 1, none⟩

/-- Three levels are enough for it, and so are forty. -/
theorem limit_only_refuses_printNegation : (3 : Int) ≤ 40 ∧
    ∃ r, (Feed.ofList printNegation).run 3 = .ok r ∧ r.errors = [] ∧
      (Feed.ofList printNegation).run 40 = .ok r :=
  ⟨by decide, _, rfl, rfl,
    (limit_only_refuses (by decide)).2.1 _ _ rfl fun _ mem => absurd mem List.not_mem_nil⟩

end Lox
