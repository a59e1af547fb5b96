import Lox.Proofs.Token.Munch
import Mathlib.Data.List.Induction

/-!
# What a scan gives

A scan stands at a place, passes over a piece or takes a token there, and comes to the next place.
So what it gives is what was taken on the way (`feed_of_reaches`), and it ends where the text does
or where it is refused (`feed_cases`). A pass over the text gives the same tokens one at a time
(`Reader.Gives`). It is always at one of three moments (`Reader.Moment`), and what it answers there
is said in one place (`Reader.Moment.next_cases`).
-/

namespace Lox

/-- A feed gives just some tokens if these are all and there is no fault. -/
theorem Feed.toExcept_eq_ok_iff {f : Feed} {ts : List Token} :
    f.toExcept = .ok ts ↔ f = ⟨ts, none⟩ := by
  obtain ⟨tokens, _ | e⟩ := f <;> simp [toExcept]

namespace Lexical

open Lexeme

variable {before content piece raw rest text : List Char} {type : TokenType} {ts : List Token}
  {code : String} {cause : LexicalCause}

/-! ## From place to place -/

/-- A piece that is passed over gives nothing. -/
theorem feedFrom_of_discards (h : Discards piece rest) (line : Nat) :
    feedFrom line (piece ++ rest) = feedFrom (line + piece.count '\n') rest := by
  obtain ⟨c, cs, shown⟩ : ∃ c cs, piece ++ rest = c :: cs := by
    cases h <;> exact ⟨_, _, rfl⟩
  rw [shown, feedFrom_of_blank (cut_of_discards h shown), lineAfter]

/-- A lexeme that is taken gives its token. -/
theorem feedFrom_of_takes (h : Takes type content raw rest) (line : Nat) :
    feedFrom line (raw ++ rest) =
      (feedFrom (line + raw.count '\n') rest).push (.ofLexeme type content line) := by
  obtain ⟨c, cs, shown⟩ : ∃ c cs, raw ++ rest = c :: cs :=
    List.exists_cons_of_ne_nil (List.append_ne_nil_of_left_ne_nil h.longest.isLexeme.ne_nil rest)
  rw [shown, feedFrom_of_token (cut_of_takes h shown), lineAfter]

/-- What is refused gives a fault. -/
theorem feedFrom_of_refuses (h : Refuses code cause text) (line : Nat) :
    feedFrom line text = ⟨[], some ⟨cause, line⟩⟩ := by
  obtain ⟨c, cs, rfl⟩ : ∃ c cs, text = c :: cs := by
    cases h with
    | number longest =>
      obtain ⟨rest, rfl⟩ := longest.isPrefix
      exact List.exists_cons_of_ne_nil
        (List.append_ne_nil_of_left_ne_nil longest.isLexeme.ne_nil rest)
    | _ => exact ⟨_, _, rfl⟩
  unfold feedFrom
  simp only [cut_of_refuses h]

/-- No lexeme is the mark of the end. -/
theorem isEof_of_isLexeme (h : IsLexeme type content raw) (line : Nat) :
    (Token.ofLexeme type content line).isEof = false := by
  cases h with
  | fixed some =>
    refine beq_eq_false_iff_ne.2 ?_
    rintro rfl
    exact some rfl
  | _ => rfl

/-- A text that is not empty goes on with a piece that is passed over or with a lexeme that is
taken, or it is refused. -/
theorem cases_text (some : text ≠ []) :
    (∃ piece rest, text = piece ++ rest ∧ piece ≠ [] ∧ Discards piece rest) ∨
    (∃ type content raw rest, text = raw ++ rest ∧ raw ≠ [] ∧ Takes type content raw rest) ∨
    ∃ cause : LexicalCause, Refuses cause.code cause text := by
  obtain ⟨c, cs, rfl⟩ := List.exists_cons_of_ne_nil some
  have fits := fits_cut c cs
  have split := taken_append_rest c cs
  have more := taken_ne_nil c cs
  cases found : cut c cs with
  | mk piece taken left =>
    rw [found] at fits split more
    cases piece with
    | blank => exact .inl ⟨taken, left, split.symm, more, fits⟩
    | token type content =>
      exact .inr (.inl ⟨type, content, taken, left, split.symm, more, takes_of_cut found⟩)
    | fault cause => exact .inr (.inr ⟨cause, fits⟩)

/-- What a scan gives is what was taken on the way to a place, and what the text gives from there
on. -/
theorem feed_of_reaches (h : Reaches text before rest ts) :
    text = before ++ rest ∧
      feedFrom 1 text = ⟨ts ++ (feedFrom (1 + before.count '\n') rest).tokens,
        (feedFrom (1 + before.count '\n') rest).fault⟩ := by
  induction h with
  | start => exact ⟨rfl, rfl⟩
  | @discard before piece rest ts _ h ih =>
    obtain ⟨rfl, feed⟩ := ih
    rw [feedFrom_of_discards h, Nat.add_assoc, ← List.count_append] at feed
    exact ⟨(List.append_assoc ..).symm, feed⟩
  | @take before content raw rest type ts _ h ih =>
    obtain ⟨rfl, feed⟩ := ih
    rw [feedFrom_of_takes h, Nat.add_assoc, ← List.count_append] at feed
    refine ⟨(List.append_assoc ..).symm, ?_⟩
    rw [feed, List.append_assoc]
    rfl

/-- No token that was taken is the mark of the end. -/
theorem isEof_of_reaches (h : Reaches text before rest ts) : ∀ t ∈ ts, t.isEof = false := by
  induction h with
  | start => simp
  | discard _ _ ih => exact ih
  | take _ takes ih =>
    intro t mem
    rcases List.mem_append.1 mem with mem | mem
    · exact ih t mem
    · rw [List.mem_singleton.1 mem]
      exact isEof_of_isLexeme takes.longest.isLexeme _

/-- Where a text is refused its scan fails, on the line of the place. -/
theorem feed_of_refuses (h : Reaches text before rest ts) (refuses : Refuses code cause rest) :
    feedFrom 1 text = ⟨ts, some ⟨cause, 1 + before.count '\n'⟩⟩ := by
  rw [(feed_of_reaches h).2, feedFrom_of_refuses refuses, List.append_nil]

/-- Where a text ends its scan gives the mark of the end. -/
theorem feed_of_end (h : Reaches text before [] ts) :
    before = text ∧ feedFrom 1 text = ⟨ts ++ [.eof], none⟩ := by
  obtain ⟨whole, feed⟩ := feed_of_reaches h
  rw [List.append_nil] at whole
  rw [feed, feedFrom]
  exact ⟨whole.symm, rfl⟩

/-- From each place a scan goes on to the end of its text, or to a place where it is refused. -/
theorem exists_last {text before rest : List Char} {ts : List Token}
    (h : Reaches text before rest ts) :
    ∃ before rest ts, Reaches text before rest ts ∧
      (rest = [] ∨ ∃ cause : LexicalCause, Refuses cause.code cause rest) := by
  -- What is left of the text gets shorter with each piece.
  by_cases last : rest = []
  · exact ⟨before, rest, ts, h, .inl last⟩
  · rcases cases_text last with ⟨piece, rest', shown, some, discards⟩ |
      ⟨type, content, raw, rest', shown, some, takes⟩ | refused
    · have fewer : rest'.length < rest.length := by
        rw [shown, List.length_append]
        exact Nat.lt_add_of_pos_left (List.length_pos_iff.2 some)
      exact exists_last ((shown ▸ h).discard discards)
    · have fewer : rest'.length < rest.length := by
        rw [shown, List.length_append]
        exact Nat.lt_add_of_pos_left (List.length_pos_iff.2 some)
      exact exists_last ((shown ▸ h).take takes)
    · exact ⟨before, rest, ts, h, .inr refused⟩
termination_by rest.length

/-- A scan comes to the end of its text and gives the mark of the end, or to a place where the text
is refused and fails. -/
theorem feed_cases (text : List Char) :
    (∃ good, Reaches text text [] good ∧ feedFrom 1 text = ⟨good ++ [.eof], none⟩) ∨
    ∃ before rest ts e, Reaches text before rest ts ∧
      Refuses (LexicalCause.code e.cause) e.cause rest ∧ e.line = 1 + before.count '\n' ∧
      feedFrom 1 text = ⟨ts, some e⟩ := by
  obtain ⟨before, rest, ts, reaches, rfl | ⟨cause, refuses⟩⟩ :=
    exists_last (Reaches.start : Reaches text [] text [])
  · obtain ⟨rfl, feed⟩ := feed_of_end reaches
    exact .inl ⟨ts, reaches, feed⟩
  · exact .inr ⟨before, rest, ts, _, reaches, refuses, rfl, feed_of_refuses reaches refuses⟩

/-- A scan fails where its text is refused, with the tokens that were taken before. -/
theorem feed_eq_fault_iff (text : List Char) (ts : List Token) (e : LexicalError) :
    feedFrom 1 text = ⟨ts, some e⟩ ↔ ∃ before rest, Reaches text before rest ts ∧
      Refuses e.cause.code e.cause rest ∧ e.line = 1 + before.count '\n' := by
  constructor
  · intro feed
    rcases feed_cases text with ⟨good, -, feed'⟩ |
      ⟨before, rest, us, e', reaches, refuses, line, feed'⟩
    · cases feed.symm.trans feed'
    · cases feed.symm.trans feed'
      exact ⟨before, rest, reaches, refuses, line⟩
  · rintro ⟨before, rest, reaches, refuses, line⟩
    rw [feed_of_refuses reaches refuses, ← line]

/-- A scan ends normally where it comes to the end of its text. -/
theorem feed_eq_tokens_iff (text : List Char) (ts : List Token) :
    feedFrom 1 text = ⟨ts, none⟩ ↔ ∃ good, Reaches text text [] good ∧ ts = good ++ [.eof] := by
  constructor
  · intro feed
    rcases feed_cases text with ⟨good, reaches, feed'⟩ | ⟨before, rest, us, e, -, -, -, feed'⟩
    · exact ⟨good, reaches, congrArg Feed.tokens (feed.symm.trans feed')⟩
    · cases feed.symm.trans feed'
  · rintro ⟨good, reaches, rfl⟩
    exact (feed_of_end reaches).2

/-- A scan ends normally if it comes to no place where its text is refused. -/
theorem exists_tokens_iff (text : List Char) :
    (∃ ts, feedFrom 1 text = ⟨ts, none⟩) ↔ ∀ before rest ts code cause,
      Reaches text before rest ts → ¬ Refuses code cause rest := by
  constructor
  · rintro ⟨ts, feed⟩ before rest good code cause reaches refuses
    cases feed.symm.trans (feed_of_refuses reaches refuses)
  · intro free
    rcases feed_cases text with ⟨good, -, feed⟩ | ⟨before, rest, ts, e, reaches, refuses, -⟩
    · exact ⟨_, feed⟩
    · exact absurd refuses (free before rest ts _ e.cause reaches)

end Lexical

namespace Reader

open Lexeme Lexical

/-- A pass over a text gave some tokens, one after the other. It is at a stage after that, and its
reader at a place. -/
inductive Gives (source : String) : List Token → Pass → Reader → Prop
  | start : Gives source [] .fresh (.ofText source)
  | next {ts : List Token} {t : Token} {pass pass' : Pass} {s s' : Reader} :
    Gives source ts pass s → s.next pass = (.token t, pass', s') → Gives source (ts ++ [t]) pass' s'

/-- A reader stands at a place of a text, behind some characters and some tokens. -/
structure Stands (text before : List Char) (ts : List Token) (s : Reader) : Prop where
  /-- A scan comes to the place. -/
  reaches : Reaches text before s.rest ts
  /-- The reader counts the characters before it. -/
  pos : s.pos = before.length
  /-- The reader counts the line ends before it. -/
  line : s.line = 1 + before.count '\n'

variable {source : String} {text before content : List Char} {type : TokenType}
  {ts : List Token} {pass : Pass} {s : Reader}

/-- A reader that passes over a piece stands behind it. -/
theorem Stands.discard {k : Cut} (h : Stands text before ts s) (shown : s.rest = k.taken ++ k.rest)
    (discards : Discards k.taken k.rest) : Stands text (before ++ k.taken) ts (s.past k) where
  reaches := .discard (shown ▸ h.reaches) discards
  pos := by rw [past, h.pos, List.length_append]
  line := by rw [past, lineAfter, h.line, List.count_append, Nat.add_assoc]

/-- A reader that takes a token stands behind it. -/
theorem Stands.take {k : Cut} (h : Stands text before ts s) (shown : s.rest = k.taken ++ k.rest)
    (takes : Takes type content k.taken k.rest) :
    Stands text (before ++ k.taken) (ts ++ [.ofLexeme type content s.line]) (s.past k) where
  reaches := h.line ▸ .take (shown ▸ h.reaches) takes
  pos := by rw [past, h.pos, List.length_append]
  line := by rw [past, lineAfter, h.line, List.count_append, Nat.add_assoc]

/-- What a reader gives that stands at a place: the mark of the end where the text ends, the token
that is taken next, or the fault where the text is refused. -/
theorem Stands.draw_cases (h : Stands text before ts s) :
    (∃ s', s.draw = (.ok .eof, s') ∧ s'.rest = [] ∧ Stands text text ts s') ∨
    (∃ before type content raw s',
      s.draw = (.ok (.ofLexeme type content (1 + before.count '\n')), s') ∧
      Reaches text before (raw ++ s'.rest) ts ∧ Takes type content raw s'.rest ∧
      Stands text (before ++ raw) (ts ++ [.ofLexeme type content (1 + before.count '\n')]) s') ∨
    ∃ before rest e s', s.draw = (.error e, s') ∧ Reaches text before rest ts ∧
      Refuses e.cause.code e.cause rest ∧ e.line = 1 + before.count '\n' := by
  -- A reader draws on behind a piece that is passed over, and it stands behind it as well.
  fun_induction draw s generalizing before with
  | case1 s last =>
    obtain ⟨rfl, -⟩ := feed_of_reaches h.reaches
    rw [last, List.append_nil] at h ⊢
    exact .inl ⟨s, rfl, last, h⟩
  | case2 s c cs shown blank ih =>
    have fits := fits_cut c cs
    rw [Fits, blank] at fits
    exact ih (h.discard (shown.trans (taken_append_rest c cs).symm) fits)
  | case3 s c cs shown type content token =>
    have split := shown.trans (taken_append_rest c cs).symm
    have takes : Takes type content (cut c cs).taken (cut c cs).rest :=
      takes_of_cut (by rw [← token])
    refine .inr (.inl ⟨before, type, content, _, _, by rw [h.line], split ▸ h.reaches, takes, ?_⟩)
    exact h.line ▸ h.take split takes
  | case4 s c cs shown cause fault =>
    have fits := fits_cut c cs
    rw [Fits, fault] at fits
    exact .inr (.inr ⟨before, s.rest, _, _, rfl, h.reaches, shown ▸ fits, h.line⟩)

/-- Reading on does not change who claims the text. -/
theorem claimed_draw (s : Reader) : s.draw.2.claimed = s.claimed := by
  fun_induction draw s with
  | case2 s c cs shown blank ih => exact ih
  | _ => rfl

/-- The moments of a pass over a text: nothing was given yet, a token was taken, or the mark of the
end was given where the text ends. -/
inductive Moment (text : List Char) : List Token → Pass → Reader → Prop
  | fresh : Moment text [] .fresh ⟨text, 0, 1, false⟩
  | running {before content raw : List Char} {type : TokenType} {ts : List Token} {s : Reader} :
    s.claimed = true → Reaches text before (raw ++ s.rest) ts → Takes type content raw s.rest →
    Stands text (before ++ raw) (ts ++ [.ofLexeme type content (1 + before.count '\n')]) s →
    Moment text (ts ++ [.ofLexeme type content (1 + before.count '\n')]) .running s
  | finished {ts : List Token} {s : Reader} : s.rest = [] → Stands text text ts s →
    Moment text (ts ++ [.eof]) .finished s

/-- A reader stands at a place while its pass is not over. -/
theorem Moment.stands (h : Moment text ts pass s) (more : pass ≠ .finished) :
    ∃ before, Stands text before ts s := by
  cases h with
  | fresh => exact ⟨[], .start, rfl, rfl⟩
  | running _ _ _ stands => exact ⟨_, stands⟩
  | finished => exact absurd rfl more

/-- A pass that is not over answers with what its reader draws. -/
theorem Moment.next_eq (h : Moment text ts pass s) (more : pass ≠ .finished) :
    s.next pass = ({ s with claimed := true } : Reader).resume := by
  cases h with
  | fresh => rfl
  | running claimed => rw [← claimed, next]
  | finished => exact absurd rfl more

/-- A pass that is not over answers with a token, or with the fault of its text if this gives no
more tokens. -/
theorem Moment.next_cases (h : Moment text ts pass s) (more : pass ≠ .finished) :
    (∃ t pass' s', s.next pass = (.token t, pass', s') ∧ Moment text (ts ++ [t]) pass' s') ∨
    ∃ e s', s.next pass = (.fault e, .finished, s') ∧ feedFrom 1 text = ⟨ts, some e⟩ := by
  -- The first question claims the text, which does not move the reader.
  obtain ⟨before, stands⟩ := h.stands more
  have started : Stands text before ts { s with claimed := true } := ⟨stands.1, stands.2, stands.3⟩
  have claimed := claimed_draw { s with claimed := true }
  rw [h.next_eq more]
  rcases started.draw_cases with ⟨s', draw, last, stands'⟩ |
    ⟨front, type, content, raw, s', draw, reaches, takes, stands'⟩ |
    ⟨front, rest, e, s', draw, refused⟩
  · refine .inl ⟨.eof, .finished, s', ?_, .finished last stands'⟩
    rw [resume, draw]
    rfl
  · rw [draw] at claimed
    refine .inl ⟨_, .running, s', ?_, .running claimed reaches takes stands'⟩
    simp only [resume, draw, isEof_of_isLexeme takes.longest.isLexeme]
    rfl
  · refine .inr ⟨e, s', ?_, (feed_eq_fault_iff text ts e).2 ⟨front, rest, refused⟩⟩
    rw [resume, draw]

/-- Whatever a pass gives, it is at such a moment. -/
theorem Gives.moment (h : Gives source ts pass s) : Moment source.toList ts pass s := by
  induction h with
  | start => exact .fresh
  | @next ts t pass pass' s s' _ shown ih =>
    have more : pass ≠ .finished := by
      rintro rfl
      cases shown
    rcases ih.next_cases more with ⟨u, last, r, shown', moment⟩ | ⟨e, r, shown', -⟩
    · obtain ⟨⟨⟩, rfl, rfl⟩ : Answer.token u = .token t ∧ last = pass' ∧ r = s' := by
        simpa using shown'.symm.trans shown
      exact moment
    · rw [shown] at shown'
      cases shown'

/-- A pass that gave the mark of the end is over. -/
theorem Moment.eq_finished (h : Moment text (ts ++ [.eof]) pass s) : pass = .finished := by
  generalize whole : ts ++ [.eof] = us at h
  cases h with
  | fresh => simp at whole
  | running => simp [Token.eof, Token.ofLexeme] at whole
  | finished => rfl

/-- What a pass gave that is over is all that the text gives. -/
theorem Moment.feed_eq (h : Moment text ts .finished s) : feedFrom 1 text = ⟨ts, none⟩ := by
  cases h with
  | @finished good _ last stands =>
    exact (feed_eq_tokens_iff text _).2 ⟨good, last ▸ stands.reaches, rfl⟩

/-- What a pass gave is what the text gives first. -/
theorem Moment.isPrefix (h : Moment text ts pass s) : ts <+: (feedFrom 1 text).tokens := by
  by_cases ended : pass = .finished
  · subst ended
    simp only [h.feed_eq, List.prefix_rfl]
  · obtain ⟨before, stands⟩ := h.stands ended
    rw [(feed_of_reaches stands.reaches).2]
    exact List.prefix_append ts _

/-- A pass gives all that a text gives. -/
theorem exists_gives (us : List Token) (h : (scan source).tokens = ts ++ us) :
    ∃ pass s, Gives source ts pass s := by
  -- What is given last is added last, so the moment before it is known.
  induction ts using List.reverseRecOn generalizing us with
  | nil => exact ⟨.fresh, _, .start⟩
  | append_singleton ts t ih =>
    rw [List.append_assoc] at h
    obtain ⟨pass, s, gives⟩ := ih _ h
    have longer : ∀ {fault}, scan source ≠ ⟨ts, fault⟩ := fun same => by
      simpa using (congrArg Feed.tokens same).symm.trans h
    have more : pass ≠ .finished := by
      rintro rfl
      exact longer gives.moment.feed_eq
    rcases gives.moment.next_cases more with ⟨u, pass', s', shown, moment⟩ | ⟨e, s', -, feed⟩
    · have starts := moment.isPrefix
      change _ <+: (scan source).tokens at starts
      rw [h, List.prefix_append_right_inj, List.singleton_append, List.cons_prefix_cons] at starts
      obtain ⟨rfl, -⟩ := starts
      exact ⟨pass', s', gives.next shown⟩
    · exact absurd feed longer

/-- A pass fails behind some tokens if its text does. -/
theorem exists_gives_fault_iff (source : String) (ts : List Token) (e : LexicalError) :
    (∃ pass s, Gives source ts pass s ∧ (s.next pass).1 = .fault e) ↔
      scan source = ⟨ts, some e⟩ := by
  constructor
  · rintro ⟨pass, s, gives, answer⟩
    -- A pass that is over gives no fault.
    have more : pass ≠ .finished := by
      rintro rfl
      cases answer
    rcases gives.moment.next_cases more with ⟨t, pass', s', shown, -⟩ | ⟨e', s', shown, feed⟩
    · rw [shown] at answer
      cases answer
    · rw [shown] at answer
      obtain rfl := Answer.fault.inj answer
      exact feed
  · intro feed
    obtain ⟨pass, s, gives⟩ := exists_gives [] (by rw [feed, List.append_nil])
    have more : pass ≠ .finished := by
      rintro rfl
      cases feed.symm.trans gives.moment.feed_eq
    refine ⟨pass, s, gives, ?_⟩
    rcases gives.moment.next_cases more with ⟨t, pass', s', -, moment⟩ | ⟨e', s', shown, feed'⟩
    · -- The text gives no token behind these.
      have starts : (ts ++ [t]).length ≤ (scan source).tokens.length := moment.isPrefix.length_le
      rw [feed, List.length_append] at starts
      exact absurd starts (Nat.not_succ_le_self _)
    · rw [shown, Option.some.inj (congrArg Feed.fault (feed.symm.trans feed'))]

/-- A pass is over behind some tokens if these are all that its text gives. -/
theorem exists_gives_finished_iff (source : String) (ts : List Token) :
    (∃ s, Gives source ts .finished s) ↔ scan source = ⟨ts, none⟩ := by
  constructor
  · rintro ⟨s, gives⟩
    exact gives.moment.feed_eq
  · intro feed
    obtain ⟨good, -, rfl⟩ := (feed_eq_tokens_iff _ ts).1 feed
    obtain ⟨pass, s, gives⟩ := exists_gives [] (by rw [feed, List.append_nil])
    obtain rfl := gives.moment.eq_finished
    exact ⟨s, gives⟩

end Reader

/-- Scanning takes the longest lexeme at each place where nothing is passed over, and fails where
the text is refused, after all tokens before that place and on its line. -/
theorem scan_munches (source : String) :
    (∀ ts pass s, Reader.Gives source ts pass s → pass ≠ .finished →
      ∃ before, Lexical.Reaches source.toList before s.rest ts ∧ s.pos = before.length) ∧
    (∀ ts e, (∃ pass s, Reader.Gives source ts pass s ∧ (s.next pass).1 = .fault e) ↔
      ∃ before rest, Lexical.Reaches source.toList before rest ts ∧
        Lexical.Refuses e.cause.code e.cause rest ∧ e.line = 1 + before.count '\n') ∧
    (∀ ts, (∃ s, Reader.Gives source ts .finished s) ↔
      ∃ good, Lexical.Reaches source.toList source.toList [] good ∧ ts = good ++ [.eof]) ∧
    ((∃ ts, (scan source).toExcept = .ok ts) ↔
      ∀ before rest ts code cause, Lexical.Reaches source.toList before rest ts →
        ¬ Lexical.Refuses code cause rest) := by
  refine ⟨fun ts pass s gives more => ?_, fun ts e => ?_, fun ts => ?_, ?_⟩
  · obtain ⟨before, stands⟩ := gives.moment.stands more
    exact ⟨before, stands.reaches, stands.pos⟩
  · rw [Reader.exists_gives_fault_iff]
    exact Lexical.feed_eq_fault_iff source.toList ts e
  · rw [Reader.exists_gives_finished_iff]
    exact Lexical.feed_eq_tokens_iff source.toList ts
  · simp only [Feed.toExcept_eq_ok_iff]
    exact Lexical.exists_tokens_iff source.toList

example : (scan "1.5.2!== x").tokens.map Token.type =
    [.number, .dot, .number, .bangEqual, .equal, .identifier, .eof] := by decide +kernel

end Lox
