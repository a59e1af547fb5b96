import Lox.Token.Window

/-!
# Recovery

After a broken declaration tokens are skipped up to a boundary: a place outside the braces that the
declaration opened where a semicolon or a closing brace was just read, or where a token comes that
starts a declaration. A closing brace that `else` follows is no boundary, as it closes only a
branch.
-/

namespace Lox

/-- The types of tokens that start a declaration and nothing else. -/
def starters : List TokenType :=
  [.classKw, .funKw, .varKw, .forKw, .ifKw, .whileKw, .printKw, .returnKw]

namespace Window

/-- Whether a declaration may end with the token that was read last. -/
def afterEnding (w : Window) : Bool :=
  match w.previous with
  | some t => t.type == .semicolon || (t.type == .rightBrace && w.current.type != .elseKw)
  | none => false

/-- Whether reading can go on here after a declaration that started with `floor` open braces. -/
def isBoundary (floor : Nat) (w : Window) : Bool :=
  w.depth ≤ floor && (w.afterEnding || starters.contains w.current.type)

/-- Skips tokens up to a boundary or the end, and gives the fault that came up, if any. -/
def skipFor (floor : Nat) : (clock : List Token) → Window → Option LexicalError × Window
  | [], w => (none, w)
  | _ :: clock, w =>
    if w.atEnd || w.isBoundary floor then (none, w)
    else
      match w.advanced with
      | (none, w') => skipFor floor clock w'
      | (some e, w') => (some e, w')

/-- Skips the rest of a declaration that started at a position and with a number of open braces. At
least one token of the declaration is passed. -/
def recover (start floor : Nat) (w : Window) : Option LexicalError × Window :=
  if w.position = start then
    match w.advanced with
    | (none, w') => skipFor floor w'.clock w'
    | (some e, w') => (some e, w')
  else skipFor floor w.clock w

end Window

end Lox
