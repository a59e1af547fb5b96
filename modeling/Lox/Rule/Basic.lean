import Lox.Rule.Error
import Lox.Token.Window

/-!
# Rules

A rule reads tokens through a window and makes a value of them. It can break off for two reasons:
the tokens have the wrong form, or the text behind them has a lexical fault. Either way the window
stays where the rule was.

Rules need no other state than a window, but they can be run in any state that holds one.
-/

namespace Lox

/-- Why a rule breaks off. -/
inductive Interrupt
  /-- The tokens have the wrong form. -/
  | broken (e : SyntaxError)
  /-- The text behind the tokens is faulty. -/
  | fault (e : LexicalError)
  deriving DecidableEq

/-- States that hold a window. -/
class Windowed (σ : Type) where
  /-- The window that a state holds. -/
  window : σ → Window
  /-- Takes the window one token further, and gives the fault that came up, if any. -/
  advanced : σ → Option LexicalError × σ

/-- A window by itself. -/
instance : Windowed Window where
  window w := w
  advanced := Window.advanced

/-- A reader of tokens that is run in states of some kind. -/
abbrev RuleIn (σ : Type) := EStateM Interrupt σ

/-- A reader of tokens that needs a window and no more. -/
abbrev Rule := RuleIn Window

namespace Rule

variable {σ : Type} [Windowed σ]

/-- The token to be read. -/
def peek : RuleIn σ Token := fun s => .ok (Windowed.window s).current s

/-- Reads a token and returns it. At the end nothing is read. -/
def read : RuleIn σ Token := fun s =>
  match Windowed.advanced s with
  | (none, s') => .ok (Windowed.window s).current s'
  | (some e, s') => .error (.fault e) s'

/-- A window by itself shows the token to be read. -/
theorem peek_eq (w : Window) : peek w = .ok w.current w := rfl

/-- In a window by itself a token is read by moving the window. -/
theorem read_eq (w : Window) : read w =
    match w.advanced with
    | (none, w') => .ok w.current w'
    | (some e, w') => .error (.fault e) w' := by
  have moved : Windowed.advanced w = w.advanced := rfl
  rw [read, moved]
  rcases w.advanced with ⟨_ | e, w'⟩ <;> rfl

/-- Blames a given token. -/
def blame {σ α : Type} (cause : SyntaxCause) (t : Token) : RuleIn σ α :=
  fun s => .error (.broken ⟨cause, t⟩) s

/-- Blames the token to be read. -/
def fail {α : Type} (cause : SyntaxCause) : RuleIn σ α := do blame cause (← peek)

/-- Whether the token to be read has a given type. -/
def comes (type : TokenType) : RuleIn σ Bool := do return (← peek).type == type

/-- Reads a token if it has one of some types. -/
def accept (types : List TokenType) : RuleIn σ (Option Token) := do
  if types.contains (← peek).type then some <$> read else return none

/-- Reads a token of a given type; the message is for the case that it does not come. The end of the
input never comes, whatever type is asked for. -/
def expect (type : TokenType) (message : String) : RuleIn σ Token := do
  let t ← peek
  if t.isEof then blame (.unexpectedEnd (.type type) message) t
  else if t.type == type then read
  else blame (.unexpectedToken (.type type) message) t

end Rule

end Lox
