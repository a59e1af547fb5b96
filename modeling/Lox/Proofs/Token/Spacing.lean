import Lox.Proofs.Token.Border

/-!
# Words and the gaps between them

A layout of some words is a text that they stand in, one after the other, with a gap after each.
Gaps are rows of blanks and comments that start with a blank; only the last one and the one in front
of the first word may be missing. Scanning such a text gives the words as tokens, on the lines where
they stand (`scan_source`), because no lexeme goes on over a blank.
-/

namespace Lox.Lexical

open Lexeme

/-- A lexeme that is a token wherever it stands alone: any one but a number with a leading zero. -/
structure Word where
  /-- The type of its token. -/
  type : TokenType
  /-- The text of its token. -/
  content : List Char
  /-- Its characters. -/
  raw : List Char
  /-- It is a lexeme. -/
  isLexeme : IsLexeme type content raw
  /-- It is no number that is refused. -/
  fine : type = .number → ¬ LeadingZero raw

/-- The token of a word, without a line. -/
def Word.token (word : Word) : Token := unplaced word.type word.content

/-- A row of blanks and comments. A comment up to the end of its line has a line end behind it, and
another comment goes up to the first mark that closes it. -/
inductive Spacing : List Char → Prop
  | none : Spacing []
  | blank {c : Char} {gap : List Char} :
    c ∈ [' ', '\t', '\r', '\n'] → Spacing gap → Spacing (c :: gap)
  | line {body gap : List Char} : '\n' ∉ body → Spacing gap →
    Spacing ('/' :: '/' :: (body ++ '\n' :: gap))
  | block {body gap : List Char} : ¬ ['*', '/'] <:+: body ++ ['*'] → Spacing gap →
    Spacing ('/' :: '*' :: (body ++ '*' :: '/' :: gap))

/-- A gap that may stand beside a word: nothing, or spacing that starts with a blank. -/
structure Margin (gap : List Char) : Prop where
  /-- It consists of blanks and comments. -/
  spacing : Spacing gap
  /-- No comment comes right behind a word. -/
  blank : ∀ c ∈ gap.head?, isBlank c = true

/-- The text of words with the gaps behind them. -/
def textOf : List (Word × List Char) → List Char
  | [] => []
  | (word, gap) :: row => word.raw ++ (gap ++ textOf row)

/-- The tokens of words with the gaps behind them, after some characters. The line of a token is one
more than the number of line ends before it. -/
def placed (before : List Char) : List (Word × List Char) → List Token
  | [] => []
  | (word, gap) :: row =>
    .ofLexeme word.type word.content (1 + before.count '\n') ::
      placed (before ++ word.raw ++ gap) row

/-- A layout of some words. -/
structure Layout (words : List Word) where
  /-- The gap in front of the first word. -/
  lead : List Char
  /-- The words, each with the gap behind it. -/
  row : List (Word × List Char)
  /-- The words are those that are laid out. -/
  row_words : row.map Prod.fst = words
  /-- The first gap may stand in front of a word. -/
  margin : Margin lead
  /-- The other gaps may stand behind a word. -/
  margins : ∀ entry ∈ row, Margin entry.2
  /-- No two words run together. -/
  apart : ∀ entry ∈ row.dropLast, entry.2 ≠ []

/-- What is scanned. -/
def Layout.source {words : List Word} (l : Layout words) : String :=
  .ofList (l.lead ++ textOf l.row)

/-- The tokens of the words, where they stand. -/
def Layout.tokens {words : List Word} (l : Layout words) : List Token := placed l.lead l.row

/-- A space is a gap. -/
theorem margin_space : Margin [' '] where
  spacing := .blank (by simp) .none
  blank := by simp [isBlank]

/-- Words can always be laid out, with a space behind each. -/
instance (words : List Word) : Inhabited (Layout words) where
  default :=
    { lead := [' ']
      row := words.map fun word => (word, [' '])
      row_words := by simp [Function.comp_def]
      margin := margin_space
      margins := by simp [margin_space]
      apart := fun entry mem => by
        obtain ⟨word, -, rfl⟩ := List.mem_map.1 ((List.dropLast_prefix _).subset mem)
        exact List.cons_ne_nil _ _ }

variable {before gap rest text : List Char} {ts : List Token} {row : List (Word × List Char)}

/-- Without their lines the tokens are those of the words, wherever these stand. -/
theorem placed_erased (before : List Char) (row : List (Word × List Char)) :
    (placed before row).map Token.erased = (row.map Prod.fst).map Word.token := by
  induction row generalizing before with
  | nil => rfl
  | cons entry row ih =>
    rw [placed, List.map_cons, ih]
    rfl

/-- A scan passes over spacing. -/
theorem Reaches.spacing (h : Reaches text before (gap ++ rest) ts) (spacing : Spacing gap) :
    Reaches text (before ++ gap) rest ts := by
  induction spacing generalizing before with
  | none => rwa [List.append_nil]
  | @blank c gap blank _ ih =>
    have first : Reaches text before ([c] ++ (gap ++ rest)) ts := h
    have passed := ih (first.discard (.blank blank))
    rwa [List.append_assoc] at passed
  | @line body gap inside _ ih =>
    -- The comment ends before its line end, which is a blank.
    have shown : '/' :: '/' :: (body ++ '\n' :: gap) ++ rest =
        ('/' :: '/' :: body) ++ (['\n'] ++ (gap ++ rest)) := by simp
    rw [shown] at h
    have passed := ih ((h.discard (.line inside (.inr rfl))).discard (.blank (by simp)))
    simpa using passed
  | @block body gap first _ ih =>
    have shown : '/' :: '*' :: (body ++ '*' :: '/' :: gap) ++ rest =
        ('/' :: '*' :: (body ++ ['*', '/'])) ++ (gap ++ rest) := by simp
    rw [shown] at h
    have passed := ih (h.discard (.block first))
    simpa using passed

/-- What comes behind a word in a layout is a blank, or nothing. -/
theorem blank_of_layout {word : Word} (margins : ∀ entry ∈ (word, gap) :: row, Margin entry.2)
    (apart : ∀ entry ∈ ((word, gap) :: row).dropLast, entry.2 ≠ []) :
    ∀ d ∈ (gap ++ textOf row).head?, isBlank d = true := by
  cases gap with
  | cons c gap => exact (margins _ (List.mem_cons_self ..)).blank
  | nil =>
    cases row with
    | nil => simp [textOf]
    | cons entry row => exact absurd rfl (apart (word, []) (by simp))

/-- A scan takes the words of a layout where they stand, and comes to its end. -/
theorem reaches_row (margins : ∀ entry ∈ row, Margin entry.2)
    (apart : ∀ entry ∈ row.dropLast, entry.2 ≠ []) (h : Reaches text before (textOf row) ts) :
    Reaches text (before ++ textOf row) [] (ts ++ placed before row) := by
  induction row generalizing before ts with
  | nil => simpa [textOf, placed] using h
  | cons entry row ih =>
    obtain ⟨word, gap⟩ := entry
    -- The word is the longest lexeme there, whatever it is, because of the blank behind it.
    have blank := blank_of_layout margins apart
    have taken := h.take (takes_of_blank word.isLexeme word.fine blank)
    have passed := taken.spacing (margins _ (List.mem_cons_self ..)).spacing
    have others : ∀ entry ∈ row.dropLast, entry.2 ≠ [] := by
      intro entry mem
      refine apart entry ?_
      cases row with
      | nil => cases mem
      | cons _ _ => exact List.mem_cons_of_mem _ mem
    have whole := ih (fun entry mem => margins entry (List.mem_cons_of_mem _ mem)) others passed
    simpa [textOf, placed] using whole

/-- Scanning a layout gives its words as tokens, where they stand, and then the mark of the end. -/
theorem scan_source {words : List Word} (l : Layout words) :
    scan l.source = ⟨l.tokens ++ [.eof], none⟩ := by
  have front : Reaches (l.lead ++ textOf l.row) [] (l.lead ++ textOf l.row) [] := .start
  have whole := reaches_row l.margins l.apart (front.spacing l.margin.spacing)
  rw [List.nil_append, List.nil_append] at whole
  rw [scan, Layout.source, String.toList_ofList]
  exact (feed_eq_tokens_iff _ _).2 ⟨l.tokens, whole, rfl⟩

end Lox.Lexical
