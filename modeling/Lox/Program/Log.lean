import Lox.Program.Run

/-!
# The log of a run

Reading a program leaves a log: when the reading of tokens and of declarations starts and ends,
which declarations are skipped, and where reading goes on. The text is read as its tokens are drawn,
so the end of the text is logged among the steps of the run, where its last token is drawn.
-/

namespace Lox.Log

/-- How important an entry is. -/
inductive Level
  | debug
  | warning
  deriving DecidableEq

/-- Which part of the work an entry is about. -/
inductive Channel
  | tokens
  | declarations
  deriving DecidableEq

/-- What is logged. -/
inductive Item
  | entry (level : Level) (channel : Channel) (message : String)
  /-- The statement with a number, counted from 1, was yielded. -/
  | yielded (n : Nat)
  deriving DecidableEq

/-- The entry for a token stream that is opened. -/
def scanning (file source : String) : Item :=
  .entry .debug .tokens
    ("Scanning " ++ file ++ " (" ++ toString source.length ++ " characters)")

/-- The entry for a text that was read to its end: how many tokens and lines it has. -/
def scanned (file source : String) : Item :=
  .entry .debug .tokens
    ("Finished scanning " ++ file ++ ": " ++ toString ((scan source).tokens.length - 1) ++
      " tokens, " ++ toString (Lexeme.lineAfter 1 source.toList) ++ " lines")

/-- The entry for a program that reading starts of. -/
def parsing (file : String) : Item := .entry .debug .declarations ("Parsing " ++ file)

/-- The entry for a program that was read to its end. -/
def parsed (file : String) (statements errors : Nat) : Item :=
  .entry .debug .declarations
    ("Finished parsing " ++ file ++ ": " ++ toString statements ++ " declarations, " ++
      toString errors ++ " errors")

/-- The entry for a declaration with an error. -/
def skipping (file : String) (e : SyntaxError) : Item :=
  .entry .warning .declarations
    ("Skipping declaration (" ++ (e.location file).render ++ "): " ++ e.message)

/-- The entry for the token that reading goes on with. -/
def resynchronized (w : Window) : Item :=
  .entry .debug .declarations ("Resynchronized at " ++ w.current.describe)

/-- The end of the text, if it was reached between two windows. -/
def endBetween (ending : Item) (before after : Window) : List Item :=
  if !before.feed.isDry && after.feed.isDry then [ending] else []

/-- The log of a run from a window on, after some statements and errors. -/
def ofRun (file : String) (ending : Item) (statements errors : Nat) (before : Window) :
    Run → List Item
  | .finished _ => [parsed file statements errors]
  | .yielded _ after rest =>
    endBetween ending before after ++ .yielded (statements + 1) ::
      ofRun file ending (statements + 1) errors after rest
  | .skipped e failed after rest =>
    endBetween ending before failed ++ skipping file e :: endBetween ending failed after ++
      resynchronized after :: ofRun file ending statements (errors + 1) after rest
  | .interrupted broken _ _ => broken.toList.map (skipping file)

/-- The log of reading a program text, and the fault that ends it, if any. -/
def ofSource (file source : String) (limit : Int) : List Item × Option LexicalError :=
  let opening := [parsing file, scanning file source]
  match Window.open? (scan source) with
  | .error e => (opening, some e)
  | .ok w =>
    let r := run limit w
    let ending := scanned file source
    (opening ++ (if w.feed.isDry then [ending] else []) ++ ofRun file ending 0 0 w r, r.fault)

end Lox.Log
