import Lox.Token.Feed
import Lox.Token.Lexeme
import Lox.Pass

/-!
# Scanning

Text is read piece by piece. `feedFrom` is all that a text gives: its tokens and the mark of the
end, or the tokens before the first fault. A `Reader` is a text that is being read, with the place
that was reached; it gives the same tokens one at a time (`feed_eq_draw`). Its tokens can be asked
for through several passes, but only the first pass that is started gives any.
-/

namespace Lox

/-- The value of a token's text: only a number has one. -/
def Token.valueOf (type : TokenType) (lexeme : List Char) : Option Binary64 :=
  if type = .number then some (Decimal.ofNumeral lexeme).toBinary64 else none

/-- The token of a lexeme on a line. -/
def Token.ofLexeme (type : TokenType) (lexeme : List Char) (line : Nat) : Token :=
  ⟨type, some (String.ofList lexeme), some line, Token.valueOf type lexeme⟩

namespace Lexeme

/-- The line after some characters, which start on a given line. -/
def lineAfter (line : Nat) (text : List Char) : Nat := line + text.count '\n'

/-- All that a text gives if it starts on a given line. -/
def feedFrom (line : Nat) (text : List Char) : Feed :=
  match text with
  | [] => .ofList [.eof]
  | c :: cs =>
    match (cut c cs).piece with
    | .blank => feedFrom (lineAfter line (cut c cs).taken) (cut c cs).rest
    | .token type lexeme =>
      (feedFrom (lineAfter line (cut c cs).taken) (cut c cs).rest).push
        (.ofLexeme type lexeme line)
    | .fault cause => ⟨[], some ⟨cause, line⟩⟩
termination_by text.length
decreasing_by all_goals exact length_rest_lt c cs

end Lexeme

/-- All that a file gives. -/
def scan (source : String) : Feed := Lexeme.feedFrom 1 source.toList

/-- A text that is being read. -/
structure Reader where
  /-- The characters to come. -/
  rest : List Char
  /-- How many characters were read. -/
  pos : Nat
  /-- The line that was reached. -/
  line : Nat
  /-- Whether a pass was started. -/
  claimed : Bool
  deriving DecidableEq

namespace Reader

/-- A reader in front of a text. -/
def ofText (source : String) : Reader := ⟨source.toList, 0, 1, false⟩

/-- The reader behind the first piece of what it has to read. -/
def past (s : Reader) (k : Lexeme.Cut) : Reader :=
  { s with
    rest := k.rest
    pos := s.pos + k.taken.length
    line := Lexeme.lineAfter s.line k.taken }

/-- All that a reader still gives. -/
def feed (s : Reader) : Feed := Lexeme.feedFrom s.line s.rest

/-- Reads up to the end of the next token, the end or a fault. -/
def draw (s : Reader) : Except LexicalError Token × Reader :=
  match _h : s.rest with
  | [] => (.ok .eof, s)
  | c :: cs =>
    match (Lexeme.cut c cs).piece with
    | .blank => draw (s.past (Lexeme.cut c cs))
    | .token type lexeme => (.ok (.ofLexeme type lexeme s.line), s.past (Lexeme.cut c cs))
    | .fault cause => (.error ⟨cause, s.line⟩, s.past (Lexeme.cut c cs))
termination_by s.rest.length
decreasing_by
  have := Lexeme.length_rest_lt c cs
  simp_all [past]

/-- What a pass can answer when it is asked for a token. -/
inductive Answer
  | token (t : Token)
  /-- The text from here on is no token. -/
  | fault (e : LexicalError)
  /-- Another pass was started before. -/
  | refused
  /-- There are no more tokens. -/
  | stop
  deriving DecidableEq

/-- What is said to a pass that comes too late. -/
def refusal : String := "Scanner token stream can only be consumed once"

/-- Reads on for the pass that was started. The mark of the end and a fault are the last answers. -/
def resume (s : Reader) : Answer × Pass × Reader :=
  match s.draw with
  | (.ok t, s') => (.token t, if t.isEof then .finished else .running, s')
  | (.error e, s') => (.fault e, .finished, s')

/-- Asks a pass for the next token. -/
def next (s : Reader) : Pass → Answer × Pass × Reader
  | .fresh => if s.claimed then (.refused, .finished, s) else resume { s with claimed := true }
  | .running => s.resume
  | .finished => (.stop, .finished, s)

/-- Asks a pass for tokens until it gives another answer. A piece has at least one character, so one
question for each character and one for each of the end mark and the last answer are enough. -/
def drainFor (s : Reader) (pass : Pass) : (clock : List Char) → List Token × Answer × Pass × Reader
  | [] => ([], .stop, pass, s)
  | _ :: clock =>
    match s.next pass with
    | (.token t, pass', s') =>
      let (tokens, last) := drainFor s' pass' clock
      (t :: tokens, last)
    | (answer, pass', s') => ([], answer, pass', s')

/-- Asks a pass for all its tokens: what it gives, its last answer, and where it ends. -/
def drain (s : Reader) (pass : Pass) : List Token × Answer × Pass × Reader :=
  drainFor s pass ('.' :: '.' :: s.rest)

/-- Reading token by token gives what the feed holds. -/
theorem feed_eq_draw (s : Reader) :
    s.feed = match s.draw with
      | (.ok t, s') => if t.isEof then .ofList [t] else s'.feed.push t
      | (.error e, _) => ⟨[], some e⟩ := by
  -- The end, a blank, a token and a fault.
  fun_induction draw s with
  | case1 s h =>
    simp only [feed, h]
    unfold Lexeme.feedFrom
    rfl
  | case2 s c cs h blank ih =>
    rw [← ih]
    simp only [feed, h, past]
    conv => lhs; unfold Lexeme.feedFrom
    simp only [blank]
  | case3 s c cs h type lexeme token =>
    have notEof : (Token.ofLexeme type lexeme s.line).isEof = false := by
      simp [Token.isEof, Token.ofLexeme, Lexeme.type_ne_eof token]
    simp only [notEof, feed, h, past]
    conv => lhs; unfold Lexeme.feedFrom
    simp [token]
  | case4 s c cs h cause fault =>
    simp only [feed, h]
    unfold Lexeme.feedFrom
    simp only [fault]

end Reader

end Lox
