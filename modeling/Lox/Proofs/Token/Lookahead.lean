import Lox.Proofs.Token.Border

/-!
# Two characters ahead

Where a lexeme ends is decided by at most two characters behind it: one that might go on with it,
and behind a point also whether a digit follows. So what is passed over or taken in front of a text
is passed over or taken in front of any other that looks alike there (`Alike`), and a scan comes to
the same places before both of them (`Reaches.alike`). A pass comes to each place behind a token
(`Reader.exists_gives_of_takes`). So passes over two texts with the same first characters give the
same tokens, as long as these end two characters before the texts may differ
(`gives_iff_of_take_eq`).
-/

namespace Lox

namespace Lexical

open Lexeme

variable {c d : Char} {before content content' cs more piece raw rest rest' text : List Char}
  {ts : List Token} {type type' : TokenType}

/-- Two texts look alike to a lexeme in front of them: both start with digits, or both with the same
character and, if this is a point, with a digit behind it or with none. The end of a text looks like
the end of a line. -/
inductive Alike : (rest rest' : List Char) → Prop
  | digits {c d : Char} {cs ds : List Char} : isDigit c = true → isDigit d = true →
    Alike (c :: cs) (d :: ds)
  | same {c : Char} {cs ds : List Char} :
    (c = '.' → cs.head?.any isDigit = ds.head?.any isDigit) → Alike (c :: cs) (c :: ds)
  | endLine {ds : List Char} : Alike [] ('\n' :: ds)
  | lineEnd {cs : List Char} : Alike ('\n' :: cs) []

/-- Texts with the same two characters at their start look alike. -/
theorem alike_of_two (c d : Char) (cs ds : List Char) : Alike (c :: d :: cs) (c :: d :: ds) :=
  .same fun _ => rfl

/-- Alike is the same in both directions. -/
theorem Alike.symm (h : Alike rest rest') : Alike rest' rest := by
  cases h with
  | digits one other => exact .digits other one
  | same next => exact .same fun point => (next point).symm
  | endLine => exact .lineEnd
  | lineEnd => exact .endLine

/-- Texts that look alike look alike behind any piece. -/
theorem Alike.append (h : Alike rest rest') (piece : List Char) :
    Alike (piece ++ rest) (piece ++ rest') := by
  rcases piece with _ | ⟨c, _ | ⟨d, piece⟩⟩
  · exact h
  · refine .same fun _ => ?_
    -- Right behind a point the texts themselves say whether a digit follows.
    cases h with
    | digits one other => simp [one, other]
    | _ => rfl
  · exact .same fun _ => rfl

/-- A text looks like itself with a line end and more behind it. -/
theorem alike_append_line (rest more : List Char) : Alike rest (rest ++ '\n' :: more) := by
  have ended := (Alike.endLine : Alike [] ('\n' :: more)).append rest
  rwa [List.append_nil] at ended

/-- Where a digit starts one text a digit starts the other, and so for parts of words. -/
theorem Alike.exists_cons {p : Char → Bool} (h : Alike (d :: cs) rest')
    (digits : ∀ e, isDigit e = true → p e = true) (first : p d = true) (inLine : d ≠ '\n') :
    ∃ e es, rest' = e :: es ∧ p e = true := by
  cases h with
  | digits _ other => exact ⟨_, _, rfl, digits _ other⟩
  | same => exact ⟨_, _, rfl, first⟩
  | lineEnd => exact absurd rfl inLine

/-- Where neither a digit nor a line end starts one text, the other starts with the same
character. -/
theorem Alike.exists_same (h : Alike (d :: cs) rest') (other : isDigit d = false)
    (inLine : d ≠ '\n') :
    ∃ es, rest' = d :: es ∧ (d = '.' → cs.head?.any isDigit = es.head?.any isDigit) := by
  cases h with
  | digits digit =>
    rw [other] at digit
    cases digit
  | same next => exact ⟨_, rfl, next⟩
  | lineEnd => exact absurd rfl inLine

/-! ## How lexemes go on -/

/-- A number goes on with each digit. -/
theorem IsNumber.concat (h : IsNumber raw) (digit : isDigit d = true) : IsNumber (raw ++ [d]) := by
  have last : ∀ e ∈ [d], isDigit e = true := fun e mem => by rwa [List.mem_singleton.1 mem]
  cases h with
  | whole all => exact .whole (all.append last)
  | fraction all more =>
    rw [List.append_assoc, List.cons_append]
    exact .fraction all (more.append last)

/-- The digits in front of a point are those in front of any point in the same number. -/
theorem IsNumber.of_point (h : IsNumber (raw ++ '.' :: more)) (all : ∀ e ∈ raw, isDigit e = true) :
    Digits raw ∧ Digits more := by
  have point : isDigit '.' = false := rfl
  have stop : ∀ {es : List Char}, ∀ e ∈ ('.' :: es).head?, isDigit e = false := by simp [point]
  generalize shown : raw ++ '.' :: more = text at h
  cases h with
  | whole digits =>
    have digit := digits.2 '.' (shown ▸ List.mem_append_right raw (List.mem_cons_self ..))
    rw [point] at digit
    cases digit
  | @fraction ds es digits fraction =>
    -- Both points end the digits that the number starts with.
    have taken := (span_append ('.' :: more) all stop).1
    rw [shown, (span_append ('.' :: es) digits.2 stop).1] at taken
    subst taken
    obtain rfl : more = es := by simpa using shown
    exact ⟨digits, fraction⟩

/-- A number that goes on with a point consists of digits, and a digit follows the point. -/
theorem IsNumber.exists_point (h : IsNumber raw) (h' : IsNumber (raw ++ '.' :: more)) :
    Digits raw ∧ more.head?.any isDigit = true := by
  have all : ∀ e ∈ raw, isDigit e = true := by
    cases h with
    | whole digits => exact digits.2
    | @fraction ds es digits fraction =>
      -- The second point would be among the digits behind the first one.
      rw [List.append_assoc, List.cons_append] at h'
      have digit := (h'.of_point digits.2).2.2 '.' (by simp)
      cases digit
  obtain ⟨digits, some, areDigits⟩ := h'.of_point all
  obtain ⟨e, es, rfl⟩ := List.exists_cons_of_ne_nil some
  exact ⟨digits, areDigits e (List.mem_cons_self ..)⟩

/-- A sign goes on with nothing but an equals sign. -/
theorem IsLexeme.eq_of_sign (h : IsLexeme type content (c :: cs))
    (h' : IsLexeme type' content' (c :: cs ++ d :: more)) (other : isWordPart c = false)
    (quote : c ≠ '"') : d = '=' ∧ more = [] := by
  have longer : ∀ type ∈ TokenType.all, ∀ type' ∈ TokenType.all,
      (type.text.toList.head?.any fun c => !isWordPart c) = true →
      type.text.toList.isPrefixOf type'.text.toList = true →
      type'.text.toList.drop type.text.toList.length ∈ [[], ['=']] := by
    decide +kernel
  obtain ⟨text, -⟩ := h.of_sign other quote
  obtain ⟨text', -⟩ := h'.of_sign (c := c) other quote
  have rest := longer type (TokenType.mem_all type) type' (TokenType.mem_all type')
    (by simp [text, other]) (by simp [text, text'])
  rw [text, text'] at rest
  simpa using rest

/-- Where a lexeme goes on in one text, it goes on in any other that looks alike. -/
theorem IsLexeme.exists_longer (h : IsLexeme type content raw)
    (h' : IsLexeme type' content' (raw ++ d :: more)) (starts : d :: more <+: rest)
    (alike : Alike rest rest') :
    ∃ type content e es, IsLexeme type content (raw ++ e :: es) ∧ e :: es <+: rest' := by
  obtain ⟨left, rfl⟩ := starts
  -- The longer lexeme would be the only one to hold a line end.
  have inLine : d ≠ '\n' := by
    rintro rfl
    cases h.isBlank_of_append h' '\n' (List.mem_cons_self ..)
  obtain ⟨c, raw, rfl⟩ := List.exists_cons_of_ne_nil h.ne_nil
  rcases h.cases_head with ⟨digit, -, -, number⟩ | ⟨letter, -, -, all⟩ | ⟨rfl, -⟩ |
    ⟨other, quote, -⟩
  · obtain ⟨-, -, number'⟩ := h'.of_digit digit
    rcases number'.isDigit_or d (by simp) with first | rfl
    · -- Any digit goes on with a number.
      obtain ⟨e, es, rfl, first'⟩ := alike.exists_cons (fun _ digit => digit) first inLine
      exact ⟨_, _, e, [], .number (number.concat first'), by simp⟩
    · obtain ⟨digits, next⟩ := number.exists_point number'
      obtain ⟨es, rfl, same⟩ := alike.exists_same rfl inLine
      have next' : es.head?.any isDigit = true := by
        rw [← same rfl]
        cases more with
        | nil => cases next
        | cons e more => exact next
      cases es with
      | nil => cases next'
      | cons e es =>
        have fraction : Digits [e] := ⟨List.cons_ne_nil e [], by simpa using next'⟩
        exact ⟨_, _, '.', [e], .number (.fraction digits fraction), by simp⟩
  · obtain ⟨-, -, parts⟩ := h'.of_letter letter
    have first : isWordPart d = true := parts d (by simp)
    have digits : ∀ e, isDigit e = true → isWordPart e = true := fun e digit => by
      rw [isWordPart, digit, Bool.or_true]
    obtain ⟨e, es, rfl, first'⟩ := alike.exists_cons digits first inLine
    refine ⟨_, _, e, [], isLexeme_word letter fun f mem => ?_, by simp⟩
    rcases List.mem_append.1 mem with mem | mem
    · exact all f mem
    · rwa [List.mem_singleton.1 mem]
  · cases h.eq_nil_of_quote h'
  · obtain ⟨rfl, rfl⟩ := h.eq_of_sign h' other quote
    obtain ⟨es, rfl, -⟩ := alike.exists_same rfl inLine
    exact ⟨_, _, '=', [], h', by simp⟩

/-! ## Scanning in front of texts that look alike -/

/-- The longest lexeme is the longest in front of any text that looks alike. -/
theorem Longest.alike (h : Longest type content raw (raw ++ rest)) (alike : Alike rest rest') :
    Longest type content raw (raw ++ rest') := by
  refine ⟨h.isLexeme, List.prefix_append raw rest', fun type' content' raw' h' starts => ?_⟩
  refine Nat.le_of_not_lt fun longer => ?_
  obtain ⟨more, rfl⟩ := List.prefix_of_prefix_length_le (List.prefix_append raw rest') starts
    (Nat.le_of_lt longer)
  rw [List.prefix_append_right_inj] at starts
  cases more with
  | nil => simp at longer
  | cons d more =>
    obtain ⟨_, _, e, es, h'', starts'⟩ := h.isLexeme.exists_longer h' starts alike.symm
    have shorter := h.longest h'' ((List.prefix_append_right_inj raw).2 starts')
    rw [List.length_append, List.length_cons] at shorter
    omega

/-- What is taken in front of a text is taken in front of any other that looks alike. -/
theorem Takes.alike (h : Takes type content raw rest) (alike : Alike rest rest') :
    Takes type content raw rest' := by
  refine takes_of_longest (h.longest.alike alike) h.fine fun slash d mem => ?_
  -- Neither a digit nor a line end makes the slash the start of a comment.
  have plain := h.plain slash
  cases alike with
  | @digits _ e _ _ _ digit =>
    obtain rfl := Option.some.inj mem
    constructor
    · rintro rfl
      cases digit
    · rintro rfl
      cases digit
  | same => exact plain d mem
  | endLine =>
    obtain rfl := Option.some.inj mem
    decide
  | lineEnd => cases mem

/-- What is passed over in front of a text is passed over in front of any other that looks alike. -/
theorem Discards.alike (h : Discards piece rest) (alike : Alike rest rest') :
    Discards piece rest' := by
  cases h with
  | blank blank => exact .blank blank
  | block first => exact .block first
  | line inside ends =>
    refine .line inside ?_
    cases alike with
    | digits digit =>
      rcases ends with empty | line
      · cases empty
      · obtain rfl := Option.some.inj line
        cases digit
    | same =>
      rcases ends with empty | line
      · cases empty
      · exact .inr line
    | endLine => exact .inr rfl
    | lineEnd => exact .inl rfl

/-- A scan comes to the same places in front of texts that look alike. -/
theorem Reaches.alike (h : Reaches text before rest ts) (alike : Alike rest rest') :
    Reaches (before ++ rest') before rest' ts := by
  induction h generalizing rest' with
  | start => exact .start
  | @discard before piece rest ts _ discards ih =>
    have reaches := ih (alike.append piece)
    rw [← List.append_assoc] at reaches
    exact reaches.discard (discards.alike alike)
  | @take before content raw rest type ts _ takes ih =>
    have reaches := ih (alike.append raw)
    rw [← List.append_assoc] at reaches
    exact reaches.take (takes.alike alike)

end Lexical

namespace Reader

open Lexeme Lexical

variable {source : String} {c : Char} {before content cs piece raw rest text : List Char}
  {type : TokenType} {ts : List Token} {pass : Pass} {s r : Reader}

/-! ## The places that a pass comes to -/

/-- The first piece of what a reader has to read says what it draws. -/
theorem draw_of_cut {k : Cut} (start : s.rest = c :: cs) (cutting : cut c cs = k) :
    s.draw = match k.piece with
      | .blank => (s.past k).draw
      | .token type content => (.ok (.ofLexeme type content s.line), s.past k)
      | .fault cause => (.error ⟨cause, s.line⟩, s.past k) := by
  subst cutting
  obtain ⟨text, pos, line, claimed⟩ := s
  obtain rfl : text = c :: cs := start
  cases piece : (cut c cs).piece <;>
  · conv => lhs; unfold draw
    simp only [piece]

/-- A reader draws on behind what is passed over. -/
theorem draw_of_discards (h : Discards piece rest) (shown : s.rest = piece ++ rest) :
    s.draw = (s.past ⟨.blank, piece, rest⟩).draw := by
  obtain ⟨c, cs, start⟩ : ∃ c cs, piece ++ rest = c :: cs := by
    cases h <;> exact ⟨_, _, rfl⟩
  exact draw_of_cut (shown.trans start) (cut_of_discards h start)

/-- A reader draws the token that is taken. -/
theorem draw_of_takes (h : Takes type content raw rest) (shown : s.rest = raw ++ rest) :
    s.draw = (.ok (.ofLexeme type content s.line), s.past ⟨.token type content, raw, rest⟩) := by
  obtain ⟨c, cs, start⟩ : ∃ c cs, raw ++ rest = c :: cs :=
    List.exists_cons_of_ne_nil (List.append_ne_nil_of_left_ne_nil h.longest.isLexeme.ne_nil rest)
  exact draw_of_cut (shown.trans start) (cut_of_takes h start)

/-- A pass whose reader draws what one at some place does gives the token that is taken there. -/
theorem Gives.take (h : Gives source ts pass s) (more : pass ≠ .finished)
    (claimed : r.claimed = true) (stands : Stands source.toList before ts r)
    (draw : ({ s with claimed := true } : Reader).draw = r.draw) (shown : r.rest = raw ++ rest)
    (takes : Takes type content raw rest) :
    ∃ s', Gives source (ts ++ [.ofLexeme type content (1 + before.count '\n')]) .running s' ∧
      s'.claimed = true ∧ s'.rest = rest ∧
      Stands source.toList (before ++ raw)
        (ts ++ [.ofLexeme type content (1 + before.count '\n')]) s' := by
  have stands' := stands.take (k := ⟨.token type content, raw, rest⟩) shown takes
  refine ⟨r.past ⟨.token type content, raw, rest⟩, h.next ?_, claimed, rfl, stands.line ▸ stands'⟩
  have running : (Token.ofLexeme type content r.line).isEof = false :=
    isEof_of_isLexeme takes.longest.isLexeme r.line
  rw [h.moment.next_eq more, resume, draw, draw_of_takes takes shown, ← stands.line]
  simp only [running]
  rfl

/-- For each place that a scan comes to, a pass gives the tokens before it, and goes on as a reader
does that stands there. -/
theorem exists_gives_of_reaches (h : Reaches source.toList before rest ts) :
    ∃ pass s r, Gives source ts pass s ∧ pass ≠ .finished ∧ r.claimed = true ∧ r.rest = rest ∧
      Stands source.toList before ts r ∧
      ({ s with claimed := true } : Reader).draw = r.draw := by
  induction h with
  | start =>
    exact ⟨.fresh, .ofText source, { Reader.ofText source with claimed := true }, .start, nofun,
      rfl, rfl, ⟨.start, rfl, rfl⟩, rfl⟩
  | @discard before piece rest ts _ discards ih =>
    obtain ⟨pass, s, r, gives, more, claimed, shown, stands, draw⟩ := ih
    have stands' := stands.discard (k := ⟨.blank, piece, rest⟩) shown discards
    exact ⟨pass, s, r.past ⟨.blank, piece, rest⟩, gives, more, claimed, rfl, stands',
      draw.trans (draw_of_discards discards shown)⟩
  | take _ takes ih =>
    obtain ⟨pass, s, r, gives, more, claimed, shown, stands, draw⟩ := ih
    obtain ⟨s', gives', claimed', shown', stands'⟩ :=
      gives.take more claimed stands draw shown takes
    have same : ({ s' with claimed := true } : Reader) = s' := by rw [← claimed']
    exact ⟨.running, s', s', gives', nofun, claimed', shown', stands', by rw [same]⟩

/-- Where a scan takes a token, a pass gives it, and its reader stands behind it. -/
theorem exists_gives_of_takes (h : Reaches source.toList before (raw ++ rest) ts)
    (takes : Takes type content raw rest) :
    ∃ s, Gives source (ts ++ [.ofLexeme type content (1 + before.count '\n')]) .running s ∧
      s.rest = rest ∧
      Stands source.toList (before ++ raw)
        (ts ++ [.ofLexeme type content (1 + before.count '\n')]) s := by
  obtain ⟨pass, s, r, gives, more, claimed, shown, stands, draw⟩ := exists_gives_of_reaches h
  obtain ⟨s', gives', -, shown', stands'⟩ := gives.take more claimed stands draw shown takes
  exact ⟨s', gives', shown', stands'⟩

/-- Texts with the same first characters go on with the same two behind all that comes two before
the last of these. -/
theorem exists_two {k : Nat} (same : (before ++ rest).take k = text.take k)
    (long : k ≤ (before ++ rest).length) (near : before.length + 2 ≤ k) :
    ∃ d e cs ds, rest = d :: e :: cs ∧ text = before ++ d :: e :: ds := by
  rw [List.length_append] at long
  -- The two characters are there, and they are among the first ones, which both texts have.
  obtain ⟨d, e, cs, rfl⟩ : ∃ d e cs, rest = d :: e :: cs := by
    rcases rest with _ | ⟨d, _ | ⟨e, cs⟩⟩
    · rw [List.length_nil] at long
      omega
    · rw [List.length_singleton] at long
      omega
    · exact ⟨d, e, cs, rfl⟩
  obtain ⟨more, rfl⟩ := Nat.exists_eq_add_of_le near
  have taken : (before ++ d :: e :: cs).take (before.length + 2 + more) =
      before ++ d :: e :: cs.take more := by
    rw [Nat.add_assoc, List.take_length_add_append, Nat.add_comm 2 more, List.take_succ_cons,
      List.take_succ_cons]
  refine ⟨d, e, cs, cs.take more ++ text.drop (before.length + 2 + more), rfl, ?_⟩
  calc text = text.take (before.length + 2 + more) ++ text.drop (before.length + 2 + more) :=
        (List.take_append_drop ..).symm
    _ = before ++ d :: e :: cs.take more ++ text.drop (before.length + 2 + more) := by
        rw [← same, taken]
    _ = before ++ d :: e :: (cs.take more ++ text.drop (before.length + 2 + more)) := by
        rw [List.append_assoc, List.cons_append, List.cons_append]

/-- What a pass over a text gives, a pass over any other with the same first characters gives, if at
least two more of these are behind its reader. -/
theorem Gives.exists_of_take_eq {other : String} {k : Nat} (h : Gives source ts pass s)
    (same : source.toList.take k = other.toList.take k) (long : k ≤ source.length)
    (near : s.pos + 2 ≤ k) : ∃ r, Gives other ts pass r ∧ r.pos = s.pos ∧ r.line = s.line := by
  cases h.moment with
  | fresh => exact ⟨.ofText other, .start, rfl, rfl⟩
  | @running before content raw type ts s claimed reaches takes stands =>
    have place : s.pos = (before ++ raw).length := stands.pos
    have whole : source.toList = before ++ raw ++ s.rest := (feed_of_reaches stands.reaches).1
    rw [← String.length_toList, whole] at long
    rw [place] at near
    obtain ⟨d, e, cs, ds, behind, shown⟩ := exists_two (whole ▸ same) long near
    -- The token ends before the same two characters, so it is taken in the other text as well.
    have alike : Alike s.rest (d :: e :: ds) := behind ▸ alike_of_two d e cs ds
    have reaches' := reaches.alike (alike.append raw)
    rw [← List.append_assoc, ← shown] at reaches'
    obtain ⟨r, gives, -, stands'⟩ := exists_gives_of_takes reaches' (takes.alike alike)
    exact ⟨r, gives, stands'.pos.trans place.symm, stands'.line.trans stands.line.symm⟩
  | finished last stands =>
    -- A pass that is over has come to the end, where no characters are left.
    have ended : s.pos = source.length := stands.pos.trans source.length_toList
    omega

end Reader

/-- Take two texts with the same first `k` characters, each at least as long. Passes over them give
the same tokens, with the same lexemes, lines and values, as long as they come to a place with at
least two more of these characters behind it, and they come to the same places. What follows the
first `k` characters, and whether it is a fault, does not matter. -/
theorem gives_iff_of_take_eq {one other : String} {k : Nat}
    (same : one.toList.take k = other.toList.take k) (long : k ≤ one.length)
    (long' : k ≤ other.length) {pos : Nat} (near : pos + 2 ≤ k) (ts : List Token) (pass : Pass)
    (line : Nat) :
    (∃ s, Reader.Gives one ts pass s ∧ s.pos = pos ∧ s.line = line) ↔
      ∃ s, Reader.Gives other ts pass s ∧ s.pos = pos ∧ s.line = line := by
  constructor
  · rintro ⟨s, gives, rfl, rfl⟩
    exact gives.exists_of_take_eq same long near
  · rintro ⟨s, gives, rfl, rfl⟩
    exact gives.exists_of_take_eq same.symm long' near

/-- The tokens in front of a number that goes on in one text are given in another, which leaves a
string open behind the point. -/
theorem gives_iff_of_take_eq_openString :
    "x = 1.5;".toList.take 6 = "x = 1.\"".toList.take 6 ∧ 6 ≤ "x = 1.5;".length ∧
      6 ≤ "x = 1.\"".length ∧ 3 + 2 ≤ 6 ∧
      ∀ ts pass line, (∃ s, Reader.Gives "x = 1.5;" ts pass s ∧ s.pos = 3 ∧ s.line = line) ↔
        ∃ s, Reader.Gives "x = 1.\"" ts pass s ∧ s.pos = 3 ∧ s.line = line :=
  have same : "x = 1.5;".toList.take 6 = "x = 1.\"".toList.take 6 := by decide
  have long : 6 ≤ "x = 1.5;".length := by decide
  have long' : 6 ≤ "x = 1.\"".length := by decide
  have near : 3 + 2 ≤ 6 := by decide
  ⟨same, long, long', near, gives_iff_of_take_eq same long long' near⟩

-- One character is not enough: what follows the point says whether it belongs to the number.
example : (scan "1.5").tokens.map Token.lexeme = [some "1.5", none] ∧
    (scan "1.x").tokens.map Token.lexeme = [some "1", some ".", some "x", none] := by
  decide +kernel

end Lox
