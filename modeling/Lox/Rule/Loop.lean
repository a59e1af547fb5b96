import Lox.Rule.Basic

/-!
# Loops

A loop takes a state through turns. It is driven by a clock, a list that is longer than the tokens
which can still be read; `loop_eq` says that the clock cannot be told from the outside if every turn
that goes on reads a token.
-/

namespace Lox.Rule

variable {σ : Type} [Windowed σ]

/-- Takes a state through turns until one gives no further state, at most one turn for each item of
the clock. -/
def loopFor {σ β : Type} (turn : β → RuleIn σ (Option β)) : (clock : List Token) → β → RuleIn σ β
  | [], s => pure s
  | _ :: clock, s => do
    match ← turn s with
    | some s' => loopFor turn clock s'
    | none => return s

/-- Takes a state through turns until one gives no further state. Every turn that gives one has to
read a token. -/
def loop {β : Type} (turn : β → RuleIn σ (Option β)) (b : β) : RuleIn σ β :=
  fun s => loopFor turn (Windowed.window s).clock b s

/-- Reads items until a closing brace or the end of the input comes. -/
def items {α : Type} (item : RuleIn σ α) : RuleIn σ (List α) :=
  List.reverse <$> loop (fun done => do
    let t ← peek
    if t.type == .rightBrace || t.isEof then return none
    else return some ((← item) :: done)) []

/-- Reads items up to a closing brace and the brace; the message is for the case that it does not
come. -/
def braced {α : Type} (item : RuleIn σ α) (message : String) : RuleIn σ (List α) := do
  let all ← items item
  let _ ← expect .rightBrace message
  return all

/-- A turn that goes on leaves fewer tokens to be read. -/
def Reads {σ : Type} (turn : σ → Rule (Option σ)) : Prop :=
  ∀ s w s' w', turn s w = .ok (some s') w' → w'.unread < w.unread

/-- What a turn and the rule after it give, by the outcome of the turn. -/
theorem bind_turn {σ : Type} (turn : σ → Rule (Option σ)) (next : σ → Rule σ) (s : σ) (w : Window) :
    (do
      match ← turn s with
      | some s' => next s'
      | none => return s : Rule σ) w =
    match turn s w with
    | .ok (some s') w' => next s' w'
    | .ok none w' => .ok s w'
    | .error e w' => .error e w' := by
  simp only [bind, EStateM.bind]
  cases turn s w with
  | error e w' => rfl
  | ok next w' => cases next <;> rfl

/-- Clocks that outlast the tokens drive a loop alike. -/
theorem loopFor_congr {σ : Type} {turn : σ → Rule (Option σ)} (reads : Reads turn)
    (one two : List Token) (s : σ) (w : Window) (hone : w.unread < one.length)
    (htwo : w.unread < two.length) : loopFor turn one s w = loopFor turn two s w := by
  induction one generalizing two s w with
  | nil => simp at hone
  | cons _ one ih =>
    cases two with
    | nil => simp at htwo
    | cons _ two =>
      rw [loopFor, loopFor, bind_turn, bind_turn]
      split
      · rename_i s' w' h
        have fewer := reads s w s' w' h
        rw [List.length_cons] at hone htwo
        exact ih two s' w' (by omega) (by omega)
      · rfl
      · rfl

/-- A loop is a turn and then, if the turn goes on, the loop from the state that it gives. -/
theorem loop_eq {σ : Type} {turn : σ → Rule (Option σ)} (reads : Reads turn) (s : σ) :
    loop turn s = (do
      match ← turn s with
      | some s' => loop turn s'
      | none => return s) := by
  funext w
  change loopFor turn w.clock s w = _
  rw [bind_turn, Window.clock, loopFor, bind_turn]
  split
  · rename_i s' w' h
    have fewer := reads s w s' w' h
    have outlasts := w.unread_lt_clock
    rw [Window.clock, List.length_cons] at outlasts
    exact loopFor_congr reads _ _ s' w' (by omega) w'.unread_lt_clock
  · rfl
  · rfl

end Lox.Rule
