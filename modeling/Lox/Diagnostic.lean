import Lox.Text.Upper

/-!
# Diagnostics

A diagnostic is a message about a place in a file, with a severity, and perhaps a code, a help text
and suggestions. `Diagnostic.render` is its form for readers, of several lines.
-/

namespace Lox

/-- A place in a file. The mark at the end of the input has no line. -/
structure Location where
  /-- The name of the file. -/
  file : String
  /-- The line, counted from 1. -/
  line : Option Int
  deriving DecidableEq

/-- A place as file and line, with `<eof>` where there is no line. -/
def Location.render (l : Location) : String :=
  match l.line with
  | some n => l.file ++ ":" ++ toString n
  | none => l.file ++ ":<eof>"

/-- A message about a place in a file. -/
structure Diagnostic where
  /-- What is said. -/
  message : String
  /-- Where it holds. -/
  location : Location
  /-- How grave it is, such as `error` or `warning`. -/
  severity : String
  /-- The code that classes it. -/
  code : Option String
  /-- What a reader should know. -/
  help : Option String
  /-- What a reader could do. -/
  suggestions : Option (List String)
  deriving DecidableEq

namespace Diagnostic

/-- The line of a help text; an empty text has none. -/
def helpLine : Option String → String
  | some text => if text.isEmpty then "" else "  help: " ++ text ++ "\n"
  | none => ""

/-- The lines of the suggestions; an empty list has none. -/
def suggestionLines : Option (List String) → String
  | some [] | none => ""
  | some suggestions =>
    "  suggestions:\n" ++ String.join (suggestions.map fun s => "    - " ++ s ++ "\n")

/-- A diagnostic as text, each of its lines ended. -/
def render (d : Diagnostic) : String :=
  Text.upper d.severity ++ ": " ++ d.message ++ "\n" ++
    "  --> " ++ d.location.render ++ "\n" ++
    helpLine d.help ++ suggestionLines d.suggestions

end Diagnostic

end Lox
