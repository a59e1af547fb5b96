import Lox.Proofs.Token.Lookahead

/-!
# Scanning line by line

A text that has no lexical fault leaves nothing open: what comes on the next line is scanned as if
it were a text of its own, but for the numbers of its lines (`scan_append_line`). A scan comes to
the same places whatever is put on a new line behind its text (`Reaches.append_line`), and on which
line a text starts shows only in the lines of its tokens and of its fault (`feedFrom_add`).
-/

namespace Lox

/-- A token some lines further down. The mark of the end has no line. -/
def Token.lowered (lines : Nat) (t : Token) : Token :=
  { t with line := t.line.map fun line => line + lines }

/-- A fault some lines further down. -/
def LexicalError.lowered (lines : Nat) (e : LexicalError) : LexicalError :=
  { e with line := e.line + lines }

/-- A feed whose tokens and fault are some lines further down. -/
def Feed.lowered (lines : Nat) (f : Feed) : Feed :=
  ⟨f.tokens.map (Token.lowered lines), f.fault.map (LexicalError.lowered lines)⟩

/-- What is said about a fault further down is the same but for the line. -/
theorem LexicalError.report_lowered (lines : Nat) (e : LexicalError) (file : String) :
    (e.lowered lines).report file =
      { e.report file with
        diagnostic :=
          { (e.report file).diagnostic with location := ⟨file, some (e.line + lines)⟩ } } := by
  rfl

namespace Lexical

open Lexeme

variable {before rest text : List Char} {ts : List Token}

/-- A text gives the same on another line, but for the lines. -/
theorem feedFrom_add (line lines : Nat) (text : List Char) :
    feedFrom (line + lines) text = (feedFrom line text).lowered lines := by
  have below : ∀ line taken, lineAfter (line + lines) taken = lineAfter line taken + lines := by
    intro line taken
    rw [lineAfter, lineAfter, Nat.add_right_comm]
  fun_induction feedFrom line text with
  | case1 line =>
    unfold feedFrom
    rfl
  | case2 line c cs blank ih =>
    -- Only the left side is unfolded: the right side is rewritten to what it gives after the piece.
    rw [← ih, ← below]
    conv => lhs; unfold feedFrom
    simp only [blank]
  | case3 line c cs type lexeme token ih =>
    have first : Token.ofLexeme type lexeme (line + lines) =
        (Token.ofLexeme type lexeme line).lowered lines := rfl
    conv => lhs; unfold feedFrom
    simp only [token, below, ih, first]
    rfl
  | case4 line c cs cause fault =>
    unfold feedFrom
    simp only [fault]
    rfl

/-- A scan comes to the same places if a line end and more is put behind its text. -/
theorem Reaches.append_line (h : Reaches text before rest ts) (more : List Char) :
    Reaches (text ++ '\n' :: more) before (rest ++ '\n' :: more) ts := by
  rw [(feed_of_reaches h).1, List.append_assoc]
  exact h.alike (alike_append_line rest more)

/-- A text that a scan comes to the end of gives its tokens before those of the lines behind it. -/
theorem feed_append_line (h : Reaches text text [] ts) (more : List Char) :
    feedFrom 1 (text ++ '\n' :: more) =
      ⟨ts ++ ((feedFrom 1 more).lowered (1 + text.count '\n')).tokens,
        ((feedFrom 1 more).lowered (1 + text.count '\n')).fault⟩ := by
  have lineEnd : Discards ['\n'] more := .blank (by simp)
  -- The line end is a piece of its own, so the scan comes to the start of the next line.
  have next : Reaches (text ++ '\n' :: more) (text ++ ['\n']) more ts :=
    .discard (h.append_line more) lineEnd
  have lines : 1 + (text ++ ['\n']).count '\n' = 1 + (1 + text.count '\n') := by
    rw [List.count_append, List.count_singleton_self]
    omega
  have below : feedFrom (1 + (text ++ ['\n']).count '\n') more =
      (feedFrom 1 more).lowered (1 + text.count '\n') := by
    rw [lines, feedFrom_add]
  rw [(feed_of_reaches next).2, below]

end Lexical

/-- Take any text without a lexical fault, any other text, and both with a line end between them.
Scanning this gives the tokens of the first text without the mark of the end, and then all that the
second one gives, with its tokens and its fault, if it has one, as many lines further down as there
are lines before it. What is said about the fault is the same but for the line. -/
theorem scan_append_line {one : String} {ts : List Token} (succeeds : (scan one).toExcept = .ok ts)
    (two : String) :
    ∃ good, ts = good ++ [.eof] ∧ (∀ t ∈ good, t.isEof = false) ∧
      scan (one ++ "\n" ++ two) =
        ⟨good ++ (scan two).tokens.map (Token.lowered (1 + one.toList.count '\n')),
          (scan two).fault.map (LexicalError.lowered (1 + one.toList.count '\n'))⟩ ∧
      ∀ e ∈ (scan two).fault, ∀ file,
        (e.lowered (1 + one.toList.count '\n')).report file =
          { e.report file with
            diagnostic :=
              { (e.report file).diagnostic with
                location := ⟨file, some (e.line + (1 + one.toList.count '\n'))⟩ } } := by
  obtain ⟨good, reaches, rfl⟩ :=
    (Lexical.feed_eq_tokens_iff one.toList ts).1 (Feed.toExcept_eq_ok_iff.1 succeeds)
  refine ⟨good, rfl, Lexical.isEof_of_reaches reaches, ?_, fun e _ => e.report_lowered _⟩
  have text : (one ++ "\n" ++ two).toList = one.toList ++ '\n' :: two.toList := by
    simp [String.toList_append]
  rw [scan, text, Lexical.feed_append_line reaches]
  rfl

/-- A string over two lines counts as a line before the text behind it. -/
theorem scan_append_line_string :
    (scan "\"a\nb\" 1").toExcept = .ok (scan "\"a\nb\" 1").tokens ∧
      ∃ good, (scan "\"a\nb\" 1").tokens = good ++ [.eof] ∧ (∀ t ∈ good, t.isEof = false) ∧
        scan ("\"a\nb\" 1" ++ "\n" ++ ".5 /*") =
          ⟨good ++ (scan ".5 /*").tokens.map (Token.lowered (1 + "\"a\nb\" 1".toList.count '\n')),
            (scan ".5 /*").fault.map (LexicalError.lowered (1 + "\"a\nb\" 1".toList.count '\n'))⟩ ∧
        ∀ e ∈ (scan ".5 /*").fault, ∀ file,
          (e.lowered (1 + "\"a\nb\" 1".toList.count '\n')).report file =
            { e.report file with
              diagnostic :=
                { (e.report file).diagnostic with
                  location := ⟨file, some (e.line + (1 + "\"a\nb\" 1".toList.count '\n'))⟩ } } :=
  have succeeds : (scan "\"a\nb\" 1").toExcept = .ok (scan "\"a\nb\" 1").tokens := by
    decide +kernel
  ⟨succeeds, scan_append_line succeeds ".5 /*"⟩

end Lox
