import Lox.Program.Recovery
import Lox.Rule.Statement
import Lox.Token.Reader

/-!
# Runs

A program is read declaration by declaration. Each step yields a statement, or skips a declaration
that is broken. A run is all the steps from a window up to the end of its tokens or up to a fault in
the text, which nothing is read after.
-/

namespace Lox

/-- How many levels of nesting are allowed unless another limit is given. -/
def defaultLimit : Int := 40

/-- What comes of reading one declaration. -/
inductive Step
  /-- There is nothing more to read. -/
  | finished
  /-- A statement, and the window after it. -/
  | yielded (s : Stmt) (after : Window)
  /-- An error, the window where it was found and the window after recovery. -/
  | skipped (e : SyntaxError) (failed after : Window)
  /-- A fault in the text, found while a declaration was read or an error was recovered from. -/
  | interrupted (skipping : Option SyntaxError) (e : LexicalError) (after : Window)

/-- Reads a declaration with a limit on its nesting. -/
def declaration (limit : Int) : Rule Stmt := Rule.declaration limit limit.toNat

/-- Reads one declaration and recovers from an error in it. -/
def step (limit : Int) (w : Window) : Step :=
  if w.atEnd then .finished
  else
    match declaration limit w with
    | .ok s after => .yielded s after
    | .error (.fault e) after => .interrupted none e after
    | .error (.broken e) failed =>
      match failed.recover w.position w.depth with
      | (none, after) => .skipped e failed after
      | (some fault, after) => .interrupted (some e) fault after

/-- The steps of reading a program. -/
inductive Run
  /-- The end was reached. -/
  | finished (last : Window)
  | yielded (s : Stmt) (after : Window) (rest : Run)
  | skipped (e : SyntaxError) (failed after : Window) (rest : Run)
  | interrupted (skipping : Option SyntaxError) (e : LexicalError) (last : Window)

/-- Reads declarations to the end. Each step reads a token, so the clock does not run out first. -/
def runFor (limit : Int) : (clock : List Token) → Window → Run
  | [], w => .finished w
  | _ :: clock, w =>
    match step limit w with
    | .finished => .finished w
    | .yielded s after => .yielded s after (runFor limit clock after)
    | .skipped e failed after => .skipped e failed after (runFor limit clock after)
    | .interrupted skipping e after => .interrupted skipping e after

/-- Reads a program from a window on. -/
def run (limit : Int) (w : Window) : Run := runFor limit w.clock w

namespace Run

/-- The statements that a run yields. -/
def statements : Run → List Stmt
  | finished _ | interrupted _ _ _ => []
  | yielded s _ rest => s :: rest.statements
  | skipped _ _ _ rest => rest.statements

/-- The errors that a run records. -/
def errors : Run → List SyntaxError
  | finished _ => []
  | interrupted skipping _ _ => skipping.toList
  | yielded _ _ rest => rest.errors
  | skipped e _ _ rest => e :: rest.errors

/-- The fault that ends a run, if one does. -/
def fault : Run → Option LexicalError
  | finished _ => none
  | interrupted _ e _ => some e
  | yielded _ _ rest | skipped _ _ _ rest => rest.fault

/-- The window where a run ends. -/
def last : Run → Window
  | finished w | interrupted _ _ w => w
  | yielded _ _ rest | skipped _ _ _ rest => rest.last

/-- The statements of a run, each with the number of errors recorded before it and the window after
it. -/
def yields (errors : Nat) : Run → List (Stmt × Nat × Window)
  | finished _ | interrupted _ _ _ => []
  | yielded s after rest => (s, errors, after) :: rest.yields errors
  | skipped _ _ _ rest => rest.yields (errors + 1)

end Run

/-- Reads a program from a feed; a fault among the first two tokens comes before any step. -/
def Feed.run (limit : Int) (f : Feed) : Except LexicalError Run :=
  (Window.open? f).map (Lox.run limit)

/-- The statements of a program text. Declarations with errors are left out; a fault in the text is
fatal. -/
def parse (source : String) (limit : Int) : Except LexicalError (List Stmt) := do
  let r ← (scan source).run limit
  match r.fault with
  | some e => throw e
  | none => return r.statements

end Lox
