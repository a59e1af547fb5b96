import Lox.Token.Feed

/-!
# A window on the tokens

Rules read tokens through a window that holds the token to be read and the one after it. The window
counts the tokens that were read and the braces that are open. Because the second token is always
drawn, a fault in the text comes up while the token before it is still unread.
-/

namespace Lox

/-- Two tokens of a feed, and what was read before them. -/
structure Window where
  /-- The token that was read last. -/
  previous : Option Token
  /-- The token to be read. -/
  current : Token
  /-- The token after it. -/
  next : Token
  /-- What comes after these two. -/
  feed : Feed
  /-- How many tokens were read. -/
  position : Nat
  /-- How many opening braces were read that are not closed. A closing brace too many is not
  counted. -/
  depth : Nat
  deriving DecidableEq

namespace Window

/-- The window at the start of a feed, or the fault that comes up among the first two tokens. What
comes after a mark of the end is not drawn. -/
def open? (f : Feed) : Except LexicalError Window :=
  match f.pull with
  | (.error e, _) => .error e
  | (.ok current, f) =>
    if current.isEof then .ok ⟨none, current, .eof, f, 0, 0⟩
    else
      match f.pull with
      | (.error e, _) => .error e
      | (.ok next, f) => .ok ⟨none, current, next, f, 0, 0⟩

/-- Whether the token to be read marks the end. -/
def atEnd (w : Window) : Bool := w.current.isEof

/-- The number of open braces after a token. -/
def depthAfter (depth : Nat) (t : Token) : Nat :=
  match t.type with
  | .leftBrace => depth + 1
  | .rightBrace => depth - 1
  | _ => depth

/-- The window with its first token read and the second in its place, before another is drawn. -/
def moved (w : Window) : Window :=
  { w with
    previous := some w.current
    current := w.next
    position := w.position + 1
    depth := depthAfter w.depth w.current }

/-- The window one token further on, and the fault that came up instead of its second token, if any.
A fault leaves the second token as it was. -/
def shifted (w : Window) : Option LexicalError × Window :=
  if w.next.isEof then (none, { w.moved with next := .eof })
  else
    match w.feed.pull with
    | (.ok t, f) => (none, { w.moved with next := t, feed := f })
    | (.error e, f) => (some e, { w.moved with feed := f })

/-- The window with one more token read, and the fault that came up, if any. At the end nothing is
read. -/
def advanced (w : Window) : Option LexicalError × Window :=
  if w.atEnd then (none, w) else w.shifted

/-- How many tokens can still be read: those before the first mark of the end. -/
def unread (w : Window) : Nat :=
  if w.current.isEof then 0
  else if w.next.isEof then 1
  else 2 + (w.feed.tokens.takeWhile (!·.isEof)).length

/-- A list with more items than tokens can still be read. Loops that read a token in each turn are
driven by it. -/
def clock (w : Window) : List Token := .eof :: w.current :: w.next :: w.feed.tokens

/-- The clock outlasts the tokens. -/
theorem unread_lt_clock (w : Window) : w.unread < w.clock.length := by
  have := (List.takeWhile_prefix (!·.isEof) (l := w.feed.tokens)).length_le
  simp only [unread, clock, List.length_cons]
  grind

/-- Reading a token without meeting a fault leaves one fewer to be read. -/
theorem unread_advanced {w w' : Window} (h : w.advanced = (none, w')) (start : w.atEnd = false) :
    w'.unread + 1 = w.unread := by
  obtain ⟨previous, current, next, ⟨tokens, fault⟩, position, depth⟩ := w
  have notEof : current.isEof = false := start
  cases last : next.isEof with
  | true =>
    simp only [advanced, atEnd, shifted, notEof, last] at h
    simp_all [unread, moved]
    grind
  | false =>
    rcases tokens with _ | ⟨t, tokens⟩
    · rcases fault with _ | e
      · simp only [advanced, atEnd, shifted, notEof, last, Feed.pull] at h
        simp_all [unread, moved]
        grind [Token.isEof_eof]
      · simp [advanced, atEnd, shifted, notEof, last, Feed.pull] at h
    · simp only [advanced, atEnd, shifted, notEof, last, Feed.pull] at h
      simp_all [unread, moved]
      grind [List.takeWhile_cons]

end Window

end Lox
