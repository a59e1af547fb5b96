import Lox.Proofs.Token.Scan
import Mathlib.Logic.Relation

/-!
# Scanning loses nothing

The tokens that were taken and the gaps between them make up what was read of a text. Gaps are rows
of pieces that are passed over, and a token stands behind as many line ends as its line says
(`Tiles`). The places of a scan have this by how they are made (`tiles_of_reaches`), and so have the
moments of a pass over the text. A pass goes from one moment to the next by scan steps, each of
which goes forward (`Reader.ScanStep.pos_lt`).
-/

namespace Lox

/-- The characters behind a token: its lexeme, that of a string between its quotes. The mark of the
end has none. -/
def Token.raw (t : Token) : Option (List Char) :=
  t.lexeme.map fun lexeme =>
    if t.type = .string then '"' :: (lexeme.toList ++ ['"']) else lexeme.toList

namespace Lexical

/-- A row of blanks and comments in front of the rest of a text. -/
inductive Gap : (gap rest : List Char) → Prop
  | none {rest : List Char} : Gap [] rest
  | more {gap piece rest : List Char} : Gap gap (piece ++ rest) → Discards piece rest →
    Gap (gap ++ piece) rest

/-- The start of a text is made up of tokens with gaps before them. The line of a token is one more
than the number of line ends before it. -/
inductive Tiles : (start rest : List Char) → List Token → Prop
  | none {rest : List Char} : Tiles [] rest []
  | more {start gap raw rest : List Char} {ts : List Token} {t : Token} :
    Tiles start (gap ++ (raw ++ rest)) ts → Gap gap (raw ++ rest) → t.raw = some raw →
    t.line = some (1 + (start ++ gap).count '\n' : Nat) →
    Tiles (start ++ gap ++ raw) rest (ts ++ [t])

variable {before content raw rest text : List Char} {type : TokenType} {ts : List Token}

/-- The characters behind the token of a lexeme are the lexeme. -/
theorem raw_ofLexeme (h : IsLexeme type content raw) (line : Nat) :
    (Token.ofLexeme type content line).raw = some raw := by
  cases h with
  | fixed text =>
    have other : type ≠ .string := by
      rintro rfl
      exact text rfl
    simp [Token.raw, Token.ofLexeme, other]
  | _ => simp [Token.raw, Token.ofLexeme]

/-- What was read up to a place is made up of the tokens that were taken, and a gap. -/
theorem tiles_of_reaches (h : Reaches text before rest ts) :
    ∃ start gap, before = start ++ gap ∧ Tiles start (gap ++ rest) ts ∧ Gap gap rest := by
  -- A piece that is passed over goes on with the gap, and a token ends it.
  induction h with
  | start => exact ⟨[], [], rfl, .none, .none⟩
  | @discard before piece rest ts _ discards ih =>
    obtain ⟨start, gap, rfl, tiles, blank⟩ := ih
    refine ⟨start, gap ++ piece, List.append_assoc .., ?_, blank.more discards⟩
    rwa [List.append_assoc]
  | @take before content raw rest type ts _ takes ih =>
    obtain ⟨start, gap, rfl, tiles, blank⟩ := ih
    have raws := raw_ofLexeme takes.longest.isLexeme (1 + (start ++ gap).count '\n')
    exact ⟨start ++ gap ++ raw, [], (List.append_nil _).symm, tiles.more blank raws rfl, .none⟩

end Lexical

namespace Reader

open Lexeme Lexical Relation

/-- A scan step: a reader goes behind the first piece of what it has to read. -/
def ScanStep (s s' : Reader) : Prop := ∃ c cs, s.rest = c :: cs ∧ s' = s.past (cut c cs)

variable {source : String} {text before : List Char} {ts : List Token} {pass : Pass}
  {s s' : Reader}

/-- A reader draws by scan steps. -/
theorem scanSteps_draw (s : Reader) : ReflTransGen ScanStep s s.draw.2 := by
  fun_induction draw s with
  | case1 s last => exact .refl
  | case2 s c cs shown blank ih => exact .head ⟨c, cs, shown, rfl⟩ ih
  | case3 s c cs shown type content token => exact .single ⟨c, cs, shown, rfl⟩
  | case4 s c cs shown cause fault => exact .single ⟨c, cs, shown, rfl⟩

/-- What a pass is asked for is drawn by scan steps. -/
theorem scanSteps_resume (s : Reader) : ReflTransGen ScanStep s s.resume.2.2 := by
  have steps := scanSteps_draw s
  unfold resume
  split <;> simpa only [*] using steps

/-- A scan step goes forward. -/
theorem ScanStep.pos_lt (h : ScanStep s s') : s.pos < s'.pos := by
  obtain ⟨c, cs, -, rfl⟩ := h
  exact Nat.lt_add_of_pos_right (List.length_pos_iff.2 (taken_ne_nil c cs))

/-- A scan step reads as many characters as it goes forward. -/
theorem ScanStep.pos_add_length (h : ScanStep s s') :
    s'.pos + s'.rest.length = s.pos + s.rest.length := by
  obtain ⟨c, cs, shown, rfl⟩ := h
  rw [shown, ← taken_append_rest c cs, List.length_append, ← Nat.add_assoc]
  rfl

/-- Where a reader comes by scan steps it has not gone past the end. -/
theorem pos_le_of_scanSteps (h : ReflTransGen ScanStep { ofText source with claimed := true } s) :
    s.pos ≤ source.length := by
  have whole : s.pos + s.rest.length = source.length := by
    induction h with
    | refl => exact (Nat.zero_add _).trans source.length_toList
    | tail _ step ih => rw [step.pos_add_length, ih]
  omega

/-- A reader counts its place in a text. -/
theorem Stands.take_drop (h : Stands text before ts s) :
    text.take s.pos = before ∧ text.drop s.pos = s.rest := by
  obtain ⟨rfl, -⟩ := feed_of_reaches h.reaches
  rw [h.pos]
  exact ⟨List.take_left, List.drop_left⟩

/-- At a moment when a token was given, what was read ends with it and is made up of the tokens that
were given. -/
theorem Moment.tiles (h : Moment text ts pass s) (more : pass ≠ .finished) :
    Tiles (text.take s.pos) s.rest ts := by
  cases h with
  | fresh => exact .none
  | running _ reaches takes stands =>
    obtain ⟨start, gap, rfl, tiles, blank⟩ := tiles_of_reaches reaches
    rw [stands.take_drop.1]
    exact tiles.more blank (raw_ofLexeme takes.longest.isLexeme _) rfl
  | finished => exact absurd rfl more

/-- When a pass is over, its whole text is made up of the tokens that were given and a last gap. -/
theorem Moment.tiles_finished (h : Moment text ts .finished s) :
    s.rest = [] ∧ s.pos = text.length ∧ s.line = 1 + text.count '\n' ∧
      ∃ good start gap, ts = good ++ [.eof] ∧ (∀ t ∈ good, t.isEof = false) ∧
        text = start ++ gap ∧ Tiles start gap good ∧ Gap gap [] := by
  cases h with
  | @finished good _ last stands =>
    obtain ⟨start, gap, whole, tiles, blank⟩ := tiles_of_reaches stands.reaches
    rw [last, List.append_nil] at tiles
    exact ⟨last, stands.pos, stands.line, good, start, gap, rfl, isEof_of_reaches stands.reaches,
      whole, tiles, last ▸ blank⟩

end Reader

/-- While a text is scanned, what was read is made up of the tokens that were given and of gaps, and
the reader is on its line; each scan step goes forward, and none past the end. When the scan is
over, all of the text was read, and the last token is the only mark of the end. -/
theorem scan_tiles (source : String) :
    (∀ ts pass s, Reader.Gives source ts pass s → pass ≠ .finished →
      s.rest = source.toList.drop s.pos ∧
        Lexical.Tiles (source.toList.take s.pos) s.rest ts ∧
        s.line = 1 + (source.toList.take s.pos).count '\n') ∧
    (∀ ts pass s, Reader.Gives source ts pass s → pass ≠ .finished →
      Relation.ReflTransGen Reader.ScanStep { s with claimed := true } (s.next pass).2.2) ∧
    (∀ s s', Relation.ReflTransGen Reader.ScanStep { Reader.ofText source with claimed := true } s →
      Reader.ScanStep s s' → s.pos < s'.pos ∧ s'.pos ≤ source.length) ∧
    (∀ ts s, Reader.Gives source ts .finished s →
      s.rest = [] ∧ s.pos = source.length ∧ s.line = 1 + source.toList.count '\n' ∧
        ∃ good start gap, ts = good ++ [.eof] ∧ (∀ t ∈ good, t.isEof = false) ∧
          source.toList = start ++ gap ∧ Lexical.Tiles start gap good ∧ Lexical.Gap gap []) ∧
    ∀ ts, (scan source).toExcept = .ok ts ↔ ∃ s, Reader.Gives source ts .finished s := by
  refine ⟨fun ts pass s gives more => ?_, fun ts pass s gives more => ?_, fun s s' steps step => ?_,
    fun ts s gives => ?_, fun ts => ?_⟩
  · obtain ⟨before, stands⟩ := gives.moment.stands more
    obtain ⟨start, rest⟩ := stands.take_drop
    exact ⟨rest.symm, gives.moment.tiles more, start ▸ stands.line⟩
  · rw [gives.moment.next_eq more]
    exact Reader.scanSteps_resume _
  · exact ⟨step.pos_lt, Reader.pos_le_of_scanSteps (steps.tail step)⟩
  · have ended := gives.moment.tiles_finished
    rwa [String.length_toList] at ended
  · rw [Reader.exists_gives_finished_iff]
    exact Feed.toExcept_eq_ok_iff

end Lox
