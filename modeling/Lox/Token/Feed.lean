import Lox.Token.Fault

/-!
# Feeds

A feed is what a reader of tokens can still be given: some tokens, then perhaps one fault. After
these it is dry and gives marks of the end for ever.
-/

namespace Lox

/-- Tokens to come, and the fault that comes after them, if any. -/
structure Feed where
  /-- The tokens, the next one first. -/
  tokens : List Token
  /-- What stands in place of further tokens. -/
  fault : Option LexicalError
  deriving DecidableEq

namespace Feed

/-- The feed that gives nothing. -/
def dry : Feed := ⟨[], none⟩

/-- The feed of a list of tokens. -/
def ofList (tokens : List Token) : Feed := ⟨tokens, none⟩

/-- A feed with a token in front. -/
def push (t : Token) (f : Feed) : Feed := { f with tokens := t :: f.tokens }

/-- What the feed gives next, and the feed after that. A fault is given once. -/
def pull (f : Feed) : Except LexicalError Token × Feed :=
  match f.tokens, f.fault with
  | t :: tokens, fault => (.ok t, ⟨tokens, fault⟩)
  | [], some e => (.error e, dry)
  | [], none => (.ok .eof, dry)

/-- Whether nothing is left in a feed. -/
def isDry (f : Feed) : Bool := f.tokens.isEmpty && f.fault.isNone

/-- The tokens of a feed without a fault, or the fault. -/
def toExcept (f : Feed) : Except LexicalError (List Token) :=
  match f.fault with
  | some e => .error e
  | none => .ok f.tokens

/-- A token in front is what comes first. -/
theorem pull_push (t : Token) (f : Feed) : (f.push t).pull = (.ok t, f) := rfl

/-- A dry feed stays dry. -/
theorem pull_dry : dry.pull = (.ok .eof, dry) := rfl

end Feed

end Lox
