/-!
# Passes

A sequence that is made while it is asked for can be asked through several passes. Each pass is at
one of three stages.
-/

namespace Lox

/-- How far a pass over a sequence has come. -/
inductive Pass
  /-- It was not asked for anything yet. -/
  | fresh
  /-- It has given something and may give more. -/
  | running
  /-- It gives nothing any more. -/
  | finished
  deriving DecidableEq

end Lox
