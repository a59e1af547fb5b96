import Lox.Program.Run

/-!
# Sessions

A session reads one program for several passes. The first pass that is started opens a window on the
tokens; while there is one, no other pass can start. A session also reads single declarations from
the window, outside any pass and without recovery.
-/

namespace Lox

/-- What a session reads from. -/
inductive Supply
  /-- Tokens that are given once. -/
  | feed (f : Feed)
  /-- A text that is read by the pass that starts first, also if others read it before. -/
  | reader (r : Reader)

/-- Why a pass cannot start. -/
inductive Refusal
  /-- Another pass of the session has opened a window. -/
  | session
  /-- Another pass has read the text. -/
  | reader
  deriving DecidableEq

/-- What is said to a pass that cannot start. -/
def Refusal.message : Refusal → String
  | session => "Parser can only be consumed once"
  | reader => Reader.refusal

/-- The feed of a supply, and what is left of the supply after it was taken. -/
def Supply.take : Supply → Except Refusal (Feed × Supply)
  | feed f => .ok (f, feed .dry)
  | reader r =>
    if r.claimed then .error .reader else .ok (r.feed, reader { r with claimed := true })

/-- A program that is being read. -/
structure Session where
  /-- Where the tokens come from. -/
  supply : Supply
  /-- The limit on nesting. -/
  limit : Int
  /-- The window on the tokens, once a pass has opened it. -/
  window : Option Window
  /-- The errors recorded so far. -/
  errors : List SyntaxError

namespace Session

/-- A session in front of its tokens. -/
def new (supply : Supply) (limit : Int) : Session := ⟨supply, limit, none, []⟩

/-- Whether a declaration was left out because of an error. -/
def hasErrors (s : Session) : Bool := !s.errors.isEmpty

/-- What a pass can answer when it is asked for a statement. -/
inductive Answer
  | statement (s : Stmt)
  /-- The text has a lexical fault. -/
  | fault (e : LexicalError)
  /-- The pass cannot start. -/
  | refused (why : Refusal)
  /-- There are no more statements. -/
  | stop

/-- Opens the window for a pass that starts, or says why not. If a fault comes up there is no window
afterwards, and what was drawn is lost. -/
def start (s : Session) : Option Answer × Session :=
  match s.window, s.supply.take with
  | some _, _ => (some (.refused .session), s)
  | none, .error why => (some (.refused why), s)
  | none, .ok (f, supply) =>
    match Window.open? f with
    | .error e => (some (.fault e), { s with supply })
    | .ok w => (none, { s with supply, window := some w })

/-- Reads on from a window to the next statement. -/
def resumeFor (s : Session) : (clock : List Token) → Window → Answer × Pass × Session
  | [], w => (.stop, .finished, { s with window := some w })
  | _ :: clock, w =>
    match step s.limit w with
    | .finished => (.stop, .finished, { s with window := some w })
    | .yielded t after => (.statement t, .running, { s with window := some after })
    | .skipped e _ after => resumeFor { s with errors := s.errors ++ [e] } clock after
    | .interrupted skipping e after =>
      (.fault e, .finished,
        { s with errors := s.errors ++ skipping.toList, window := some after })

/-- Reads on to the next statement, from wherever the window is. -/
def resume (s : Session) : Answer × Pass × Session :=
  match s.window with
  | some w => s.resumeFor w.clock w
  | none => (.stop, .finished, s)

/-- Asks a pass for the next statement. -/
def next (s : Session) : Pass → Answer × Pass × Session
  | .finished => (.stop, .finished, s)
  | .running => s.resume
  | .fresh =>
    match s.start with
    | (some answer, s') => (answer, .finished, s')
    | (none, s') => s'.resume

/-- Asks a pass for statements until it gives another answer. -/
def drainFor (s : Session) (pass : Pass) :
    (clock : List Token) → List Stmt × Answer × Pass × Session
  | [] => ([], .stop, pass, s)
  | _ :: clock =>
    match s.next pass with
    | (.statement t, pass', s') =>
      let (statements, last) := drainFor s' pass' clock
      (t :: statements, last)
    | (answer, pass', s') => ([], answer, pass', s')

/-- Asks a pass for all its statements: what it gives, its last answer, and where it ends. -/
def drain (s : Session) (pass : Pass) : List Stmt × Answer × Pass × Session :=
  match s.next pass with
  | (.statement t, pass', s') =>
    let (statements, last) := s'.drainFor pass' ((s'.window.map Window.clock).getD [])
    (t :: statements, last)
  | (answer, pass', s') => ([], answer, pass', s')

/-- Reads one declaration from the window, if there is one. An error is not recorded, and nothing is
skipped. -/
def declaration (s : Session) : Option (Except Interrupt Stmt × Session) :=
  s.window.map fun w =>
    match Lox.declaration s.limit w with
    | .ok t after => (.ok t, { s with window := some after })
    | .error e after => (.error e, { s with window := some after })

end Session

end Lox
