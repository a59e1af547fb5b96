import Lox.Proofs.Rule.Cursor
import Lox.Proofs.Rule.Local
import Lox.Proofs.Token.Shown
import Lox.Token.Reader

/-!
# Reading on beyond a fault

A fault comes up where the last token but one is read. The window is moved all the same, but no
token takes the second place, which still shows the last one. So if a window is asked further, it
gives the last token twice before it comes to the end. Until the fault comes up a window shows what
the feed holds, and what was read is the beginning of it. From then on it stands in a row of tokens
in which the last one comes twice (`along_iff_no_fault`).

A run of requests is cut where the fault comes up: before that place and behind it, tokens are read
as usual (`answers_cases`). Before it the window is that over the tokens of the feed without a fault
(`cleared`), and behind it that over the same tokens with the last one once more
(`Window.At.of_fault`), so that both parts are those of windows over lists.
-/

namespace Lox

/-- The fault that a reply reports, if it reports one. -/
def Reply.fault? : Reply → Option LexicalError
  | failed (.fault e) => some e
  | _ => none

namespace Window

variable {w v x : Window} {f : Feed} {e : LexicalError} {t : Token} {ts us row read : List Token}
  {place : Nat} {q : Request}

/-- The tokens that are read while a window is asked, one request after the other: each time its
position goes up, the token that it shows as the one that was read last. -/
def consumed (w : Window) : List Request → List Token
  | [] => []
  | q :: qs =>
    let v := (w.answer q).2
    (if w.position < v.position then v.previous.toList else []) ++ v.consumed qs

/-- The faults that are reported while a window is asked, one request after the other. -/
def faults (w : Window) (qs : List Request) : List LexicalError :=
  (w.answers qs).1.filterMap Reply.fault?

/-- A window stands in a row of tokens behind those that were read: these are the first ones, each
once and in order, and the window shows the next one and the one after that, if there is one, and
else a mark of the end. -/
structure Along (row read : List Token) (w : Window) : Prop where
  /-- The tokens that were read are the first ones, as many as the position counts. -/
  read : read = row.take w.position
  /-- The token to be read is the one behind them. -/
  current : row[w.position]? = some w.current
  /-- The second token is the one after that. -/
  next : w.next = row[w.position + 1]?.getD .eof

/-- A window counts the tokens that were read. -/
structure Counts (read : List Token) (w : Window) : Prop where
  /-- The position is their number. -/
  position : w.position = read.length
  /-- The last one of them is the one before the window. -/
  previous : w.previous = read.getLast?
  /-- The braces that are open are those that they leave open. -/
  depth : w.depth = openBraces read

/-! ## Single requests -/

/-- What a window can answer, and where it is afterwards. -/
inductive Reacts (w : Window) : Reply × Window → Prop
  /-- Nothing is read. -/
  | stays {reply : Reply} : reply.fault? = none → Reacts w (reply, w)
  /-- A token is read. -/
  | reads {reply : Reply} {t : Token} {v : Window} :
    reply.fault? = none → w.Reads [t] v → Reacts w (reply, v)
  /-- A fault comes up. -/
  | meets {e : LexicalError} {v : Window} :
    w.advanced = (some e, v) → Reacts w (.failed (.fault e), v)

/-- A request that reads whatever comes is answered with what is made of the token. -/
theorem reacts_of_read {f : Token → Reply} (fine : ∀ t, (f t).fault? = none)
    (asked : q.rule w = (f <$> Rule.read) w) : Reacts w (w.answer q) := by
  cases start : w.atEnd with
  | true =>
    have stays : Rule.read w = .ok w.current w := by rw [Rule.read_eq, advanced, if_pos start]
    rw [answer_of_ok (asked.trans (Rule.map_of_ok stays))]
    exact .stays (fine _)
  | false =>
    cases step : w.advanced with
    | mk met v =>
      cases met with
      | none =>
        have reads : w.Reads [w.current] v := reads_singleton.2 ⟨start, rfl, step⟩
        rw [answer_of_ok (asked.trans (Rule.map_of_ok (Rule.read_of_reads reads)))]
        exact .reads (fine _) reads
      | some e =>
        have stops : Rule.read w = .error (.fault e) v := by rw [Rule.read_eq, step]
        rw [answer_of_error (asked.trans (Rule.map_of_error stops))]
        exact .meets step

/-- A request reads at most one token. -/
theorem reacts_answer (w : Window) (q : Request) : Reacts w (w.answer q) := by
  -- Whether a request reads is told by the token that is shown.
  cases q with
  | read => exact reacts_of_read (f := .token) (fun _ => rfl) rfl
  | comes type =>
    have asked : Rule.comes type w = .ok (w.current.type == type) w := rfl
    rw [answer_of_ok (q := .comes type) (Rule.map_of_ok asked)]
    exact .stays rfl
  | accept types =>
    by_cases found : w.current.type ∈ types
    · have asked : Rule.accept types w = (some <$> Rule.read) w := by
        rw [Rule.accept, Rule.peek_bind, List.contains_eq_mem, decide_eq_true found, if_pos rfl]
      refine reacts_of_read (f := fun _ => .answer true) (fun _ => rfl) ?_
      rw [Request.rule, Rule.map_congr asked, Functor.map_map]
      rfl
    · rw [answer_of_ok (q := .accept types) (Rule.map_of_ok (Rule.accept_of_not_mem found))]
      exact .stays rfl
  | expect type message =>
    cases start : w.atEnd with
    | true =>
      rw [answer_of_error (q := .expect type message)
        (Rule.map_of_error (Rule.expect_of_atEnd start))]
      exact .stays rfl
    | false =>
      by_cases same : w.current.type = type
      · have asked : Rule.expect type message w = Rule.read w := by
          have notEof : w.current.isEof = false := start
          rw [Rule.expect, Rule.peek_bind, notEof, same, beq_self_eq_true]
          rfl
        exact reacts_of_read (f := .token) (fun _ => rfl) (Rule.map_congr asked)
      · rw [answer_of_error (q := .expect type message)
          (Rule.map_of_error (Rule.expect_of_ne start same))]
        exact .stays rfl

/-! ## One request after the other -/

/-- What a run of requests comes to. Either no fault comes up and tokens are read, or one comes up
behind some tokens, and others are read behind it. -/
theorem answers_cases (w : Window) (qs : List Request) :
    (w.faults qs = [] ∧ w.Reads (w.consumed qs) (w.answers qs).2) ∨
    ∃ e ts us x v, w.faults qs = [e] ∧ w.consumed qs = ts ++ x.current :: us ∧ w.Reads ts x ∧
      x.advanced = (some e, v) ∧ v.Reads us (w.answers qs).2 := by
  -- By induction on the requests. The count of tokens grows just where one is read, and a fault can
  -- come up once only.
  induction qs generalizing w with
  | nil => exact .inl ⟨rfl, .refl w⟩
  | cons q qs ih =>
    have asked := reacts_answer w q
    rw [faults, consumed, answers]
    generalize w.answer q = result at asked ⊢
    cases asked with
    | stays fine =>
      simp only [List.filterMap_cons, fine, Nat.lt_irrefl, if_false, List.nil_append]
      exact ih w
    | @reads _ t v fine read =>
      obtain ⟨start, shown, step⟩ := reads_singleton.1 read
      obtain ⟨previous, -, position, -⟩ := moved_of_advanced start step
      have up : w.position < v.position := by omega
      simp only [List.filterMap_cons, fine, up, if_true, previous, shown, Option.toList_some]
      rcases ih v with ⟨none, reads⟩ | ⟨e, ts, us, x, y, one, split, reads, met, reads'⟩
      · exact .inl ⟨none, read.append reads⟩
      · refine .inr ⟨e, t :: ts, us, x, y, one, ?_, read.append reads, met, reads'⟩
        rw [split]
        rfl
    | @meets e v met =>
      obtain ⟨start, -, -, dry⟩ := met_of_advanced met
      obtain ⟨previous, -, position, -⟩ := moved_of_advanced start met
      have up : w.position < v.position := by omega
      -- The feed is dry behind the fault, so no other one can come up.
      have clear : v.feed.fault = none := by rw [dry]; rfl
      simp only [List.filterMap_cons, Reply.fault?, up, if_true, previous, Option.toList_some]
      rcases ih v with ⟨none, reads⟩ | ⟨e', ts, us, x, y, -, -, reads, met', -⟩
      · exact .inr ⟨e, [], _, w, v, congrArg _ none, rfl, .refl w, met, reads⟩
      · cases clear.symm.trans (reads.fault_of_advanced met')

/-! ## What is counted -/

/-- One more token is counted whether a fault comes up or not. -/
theorem Counts.advanced {met : Option LexicalError} (h : Counts read w) (start : w.atEnd = false)
    (step : w.advanced = (met, v)) : Counts (read ++ [w.current]) v := by
  obtain ⟨previous, -, position, depth⟩ := moved_of_advanced start step
  refine ⟨?_, ?_, ?_⟩
  · rw [position, h.position, List.length_append, List.length_singleton]
  · rw [previous, List.getLast?_concat]
  · rw [depth, h.depth, openBraces_concat]

/-- The tokens that are read are counted. -/
theorem Counts.reads (h : Counts read w) (reads : w.Reads ts v) : Counts (read ++ ts) v := by
  induction ts generalizing w read with
  | nil => rwa [reads_nil.1 reads, List.append_nil]
  | cons t ts ih =>
    obtain ⟨start, rfl, x, step, rest⟩ := reads_cons.1 reads
    rw [List.append_cons]
    exact ih (h.advanced start step) rest

/-! ## Windows over lists -/

/-- The window over the same tokens without a fault behind them. -/
def cleared (w : Window) : Window := { w with feed := .ofList w.feed.tokens }

/-- Without the fault a window opens as well. -/
theorem open?_cleared (opens : open? f = .ok w) : open? (.ofList f.tokens) = .ok w.cleared := by
  obtain ⟨tokens, fault⟩ := f
  rcases tokens with _ | ⟨t, _ | ⟨u, tokens⟩⟩ <;> rcases fault with _ | e <;>
    grind [open?, Feed.pull, Feed.ofList, Feed.dry, cleared]

/-- What is read is read without the fault as well. -/
theorem Reads.cleared (reads : w.Reads ts v) : w.cleared.Reads ts v.cleared := by
  induction ts generalizing w with
  | nil => rw [reads_nil.1 reads, reads_nil]
  | cons t ts ih =>
    obtain ⟨start, shown, x, step, rest⟩ := reads_cons.1 reads
    refine ⟨start, shown, x.cleared, ?_, ih rest⟩
    obtain ⟨previous, current, next, ⟨tokens, fault⟩, position, depth⟩ := w
    rcases tokens with _ | ⟨u, tokens⟩ <;> rcases fault with _ | e <;>
      grind [advanced, shifted, atEnd, moved, Feed.pull, Feed.ofList, Feed.dry, Window.cleared]

/-- A window at a place of a row stands in it. -/
theorem At.along (h : w.At ts place) : Along (effective ts) ((effective ts).take place) w := by
  obtain rfl := h.position
  exact ⟨rfl, h.current, h.next⟩

/-! ## Beyond the fault -/

/-- Where the fault comes up, the two tokens of the window are the last ones, and none marks the
end. -/
theorem At.row_of_fault (h : x.cleared.At ts place) (met : x.advanced = (some e, v)) :
    ts = (effective ts).take place ++ [x.current, x.next] ∧ (∀ t ∈ ts, t.isEof = false) ∧
      ((effective ts).take place).length = place := by
  obtain ⟨start, more, drawn, -⟩ := met_of_advanced met
  -- The second token does not mark the end, so the row goes on behind it. All tokens were drawn.
  have further : place + 2 < (effective ts).length := by
    have last := isEof_effective ts (place + 1)
    rw [← h.next, show x.cleared.next = x.next from rfl, more] at last
    simpa using last
  have all : ts.length ≤ place + 2 := by
    have left : x.feed.tokens = ts.drop (min (place + 2) (effective ts).length) :=
      congrArg Feed.tokens h.feed
    rw [drawn, Nat.min_eq_left (Nat.le_of_lt further)] at left
    exact List.drop_eq_nil_iff.1 left.symm
  have others : ∀ t ∈ ts, t.isEof = false := fun t mem =>
    isEof_of_mem_take ts t (by rwa [List.take_of_length_le (by omega)])
  have row := effective_of_forall _ others
  have length : ts.length = place + 2 := by
    rw [row, List.length_append, List.length_singleton] at further
    omega
  have whole : (effective ts).take (place + 2) = ts := by rw [row, ← length, List.take_left]
  have second : (effective ts)[place + 1]? = some x.next := by
    have next := h.next
    rw [List.getElem?_eq_getElem (Nat.lt_of_succ_lt further)] at next ⊢
    exact congrArg some next.symm
  refine ⟨?_, others, ?_⟩
  · conv_lhs => rw [← whole]
    rw [List.take_add_one, second, List.take_add_one, h.current, List.append_assoc]
    rfl
  · rw [List.length_take]
    omega

/-- Where the fault comes up, the row of the same tokens with the last one once more goes on with
the two tokens of the window. -/
theorem At.doubled_of_fault (h : x.cleared.At ts place) (met : x.advanced = (some e, v)) :
    effective (ts ++ [x.next]) =
      (effective ts).take place ++ [x.current, x.next, x.next, .eof] := by
  obtain ⟨split, others, -⟩ := h.row_of_fault met
  obtain ⟨-, more, -, -⟩ := met_of_advanced met
  have all : ∀ t ∈ ts ++ [x.next], t.isEof = false := by
    simpa [or_imp, forall_and] using ⟨others, more⟩
  calc effective (ts ++ [x.next]) = ts ++ [x.next] ++ [.eof] := effective_of_forall _ all
    _ = (effective ts).take place ++ [x.current, x.next] ++ [x.next] ++ [.eof] := by rw [← split]
    _ = (effective ts).take place ++ [x.current, x.next, x.next, .eof] := by simp

/-- Behind the fault the window is one over the same tokens with the last one once more. -/
theorem At.of_fault (h : x.cleared.At ts place) (met : x.advanced = (some e, v)) :
    v.At (ts ++ [x.next]) (place + 1) := by
  obtain ⟨split, -, length⟩ := h.row_of_fault met
  have row := h.doubled_of_fault met
  obtain ⟨-, -, -, rfl⟩ := met_of_advanced met
  have position : x.position = place := h.position
  have depth : x.depth = openBraces ((effective ts).take place) := h.depth
  generalize (effective ts).take place = front at split length depth row
  subst length
  have last := findIdx_effective (ts ++ [x.next])
  constructor
  case position => exact congrArg (· + 1) position
  case inside =>
    rw [row] at last ⊢
    simp only [List.length_append, List.length_cons, List.length_nil] at last
    omega
  case current => simp [row, moved]
  case previous => simp [row, moved]
  case next =>
    rw [row, Nat.add_assoc, List.getElem?_append_right (Nat.le_add_right _ _),
      Nat.add_sub_cancel_left]
    rfl
  case depth =>
    rw [row, List.take_append, List.take_of_length_le (Nat.le_succ _), Nat.add_sub_cancel_left]
    have one := openBraces_concat front x.current
    rwa [← depth, eq_comm] at one
  case feed =>
    -- All tokens were drawn, and so the feed is dry.
    rw [row, split]
    simp [Feed.dry]

/-- If tokens are read behind the fault, the window stands in the row in which the last token in
front of the fault comes twice. -/
theorem At.along_of_fault (h : x.cleared.At ts place) (met : x.advanced = (some e, v))
    (reads : v.Reads us w) :
    Along ((effective ts).take place ++ [x.current, x.next, x.next, .eof])
      ((effective ts).take place ++ x.current :: us) w ∧ place < w.position := by
  obtain ⟨-, -, length⟩ := h.row_of_fault met
  have row := h.doubled_of_fault met
  obtain ⟨stands, read⟩ := (h.of_fault met).reads reads
  have first :
      (effective (ts ++ [x.next])).take (place + 1) = (effective ts).take place ++ [x.current] := by
    rw [row, List.append_cons]
    exact List.take_left' (by rw [List.length_append, length, List.length_singleton])
  have along := stands.along
  rw [read, first, row, ← List.append_cons] at along
  refine ⟨along, ?_⟩
  rw [stands.position]
  exact Nat.lt_of_lt_of_le (Nat.lt_succ_self place) (Nat.le_add_right _ _)

/-- A window that opens on a feed has the fault of the feed before it. -/
theorem fault_of_open (opens : open? f = .ok w) : w.feed.fault = f.fault := by
  obtain ⟨tokens, fault⟩ := f
  rcases tokens with _ | ⟨t, _ | ⟨u, tokens⟩⟩ <;> rcases fault with _ | e <;>
    grind [open?, Feed.pull, Feed.dry]

/-- The row in which the last token comes twice is not the row of the tokens. From the place of the
last token on a window stands in only one of them. -/
theorem Along.not_along (h : Along (ts ++ [t, t, .eof]) read w) (more : t.isEof = false)
    (late : ts.length ≤ w.position) : ¬ Along (ts ++ [t, .eof]) read w := by
  intro h'
  have differs : t ≠ .eof := fun same => by simp [same] at more
  obtain ⟨-, current, next⟩ := h
  obtain ⟨-, current', next'⟩ := h'
  obtain ⟨k, place⟩ := Nat.exists_eq_add_of_le late
  rw [place, Nat.add_assoc, List.getElem?_append_right (Nat.le_add_right _ _),
    Nat.add_sub_cancel_left] at next next'
  rw [place, List.getElem?_append_right (Nat.le_add_right _ _),
    Nat.add_sub_cancel_left] at current current'
  -- Right at the last token the two rows differ in what comes behind it, one place further in the
  -- token itself, and then one of them is over.
  match k with
  | 0 => exact differs (next.symm.trans next')
  | 1 => exact differs (Option.some.inj (current.trans current'.symm))
  | k + 2 => simp at current'

/-- What becomes of a window that opens on a feed. As long as no fault comes up it stands in the row
of the tokens. A fault comes up where the token before the last one is read, and then it stands in
the row in which the last one comes twice. -/
theorem along_of_open (opens : open? f = .ok w) (qs : List Request) :
    Counts (w.consumed qs) (w.answers qs).2 ∧
    ((w.faults qs = [] ∧ w.Reads (w.consumed qs) (w.answers qs).2 ∧
        Along (effective f.tokens) (w.consumed qs) (w.answers qs).2) ∨
      ∃ ts t e, f = ⟨ts ++ [t], some e⟩ ∧ (∀ u ∈ ts ++ [t], u.isEof = false) ∧
        w.faults qs = [e] ∧ ts.length ≤ (w.answers qs).2.position ∧
        Along (ts ++ [t, t, .eof]) (w.consumed qs) (w.answers qs).2) := by
  obtain ⟨w', opens', start⟩ := exists_open_at f.tokens
  obtain rfl : w' = w.cleared := Except.ok.inj (opens'.symm.trans (open?_cleared opens))
  have new : Counts [] w := ⟨start.position, start.previous, start.depth⟩
  -- The window without its fault reads the same tokens, and it is a cursor on the row.
  rcases answers_cases w qs with
    ⟨none, reads⟩ | ⟨e, ts, us, x, v, one, split, reads, met, reads'⟩
  · refine ⟨new.reads reads, .inl ⟨none, reads, ?_⟩⟩
    obtain ⟨stands, row⟩ := start.reads reads.cleared
    have along := stands.along
    rw [row] at along
    exact ⟨along.read, along.current, along.next⟩
  · obtain ⟨stands, row⟩ := start.reads reads.cleared
    obtain ⟨tokens, others, -⟩ := stands.row_of_fault met
    obtain ⟨along, late⟩ := stands.along_of_fault met reads'
    rw [row, List.take_zero, List.nil_append] at tokens along
    rw [List.append_cons] at tokens along
    have split' : f = ⟨(ts ++ [x.current]) ++ [x.next], some e⟩ := by
      rw [← tokens, ← reads.fault_of_advanced met, fault_of_open opens]
    have counts := ((new.reads reads).advanced (met_of_advanced met).1 met).reads reads'
    rw [split]
    refine ⟨by rwa [List.append_cons], .inr ⟨_, _, e, split', tokens ▸ others, one, ?_, along⟩⟩
    rw [List.length_append, List.length_singleton]
    omega

/-- As long as no fault comes up, the token before the last one is not read. -/
theorem Reads.length_lt (opens : open? ⟨ts ++ [t], some e⟩ = .ok w)
    (others : ∀ u ∈ ts ++ [t], u.isEof = false) (reads : w.Reads us v) : us.length < ts.length := by
  refine Nat.lt_of_not_le fun late => ?_
  rw [← List.take_append_drop ts.length us] at reads
  obtain ⟨x, reads', -⟩ := reads_append.1 reads
  -- In front of the last token the window would have been shown what stands behind it.
  have shown := (reads'.of_open opens).1 1
  have fault := Feed.shown_of_fault (e := e) others
  rw [List.length_append, List.length_singleton] at fault
  rw [List.length_take_of_le late, fault] at shown
  cases shown

/-- **Reading on beyond a fault.** Take any feed that a window opens on, and any requests, made one
after the other, also after a fault was reported. The window counts the tokens that were read: their
number, the last one of them and the braces that they leave open.

These are the first tokens of the feed, each once and in order, and the window shows the next two,
just if no fault was reported. Otherwise one fault was reported, and the window stands in a row in
which the last token in front of the fault comes twice: it is shown in both places, then read, then
shown again and read again.

A fault behind good tokens is reported just if the token before the last one of these was read. -/
theorem along_iff_no_fault (opens : open? f = .ok w) (qs : List Request) :
    Counts (w.consumed qs) (w.answers qs).2 ∧
    (Along (effective f.tokens) (w.consumed qs) (w.answers qs).2 ↔ w.faults qs = []) ∧
    (w.faults qs = [] ∨ ∃ ts t e, f = ⟨ts ++ [t], some e⟩ ∧ w.faults qs = [e] ∧
      Along (ts ++ [t, t, .eof]) (w.consumed qs) (w.answers qs).2) ∧
    ∀ ts t e, f = ⟨ts ++ [t], some e⟩ → (∀ u ∈ ts ++ [t], u.isEof = false) →
      (w.faults qs = [e] ↔ ts.length ≤ (w.answers qs).2.position) := by
  obtain ⟨counts, course⟩ := along_of_open opens qs
  refine ⟨counts, ?_⟩
  rcases course with ⟨none, reads, along⟩ | ⟨ts, t, e, rfl, others, one, late, along⟩
  · refine ⟨iff_of_true along none, .inl none, ?_⟩
    rintro ts t e rfl others
    have early := Reads.length_lt opens others reads
    rw [← counts.position] at early
    exact iff_of_false (by simp [none]) (Nat.not_le_of_lt early)
  · -- A fault was reported, so the window stands in the other row, and the feed is the one that
    -- is given.
    refine ⟨iff_of_false ?_ (by simp [one]), .inr ⟨ts, t, e, rfl, one, along⟩, ?_⟩
    · have row := effective_of_forall _ others
      rw [List.append_assoc] at row
      rw [row]
      exact along.not_along (others t (by simp)) late
    · rintro ts' t' e' same -
      obtain ⟨tokens, rfl⟩ : ts ++ [t] = ts' ++ [t'] ∧ e = e' := by simpa using same
      obtain ⟨rfl, -⟩ := List.append_inj' tokens rfl
      exact iff_of_true one late

/-- Requests that read a token each, if the second and the third one are opening braces. -/
def braceRequests : List Request := [.read, .expect .leftBrace "", .accept [.leftBrace]]

/-- A brace is read twice that a text has once, and it is counted twice. -/
theorem along_iff_no_fault_brace :
    ∃ w, open? (scan "x \x7b @") = .ok w ∧
      w.faults braceRequests = [⟨.unexpectedCharacter '@', 1⟩] ∧
      (w.answers braceRequests).2.depth = 2 ∧
      Counts (w.consumed braceRequests) (w.answers braceRequests).2 ∧
      ¬ Along (effective (scan "x \x7b @").tokens) (w.consumed braceRequests)
        (w.answers braceRequests).2 := by
  have text : scan "x \x7b @" = ⟨[.ofLexeme .identifier ['x'] 1, .ofLexeme .leftBrace ['\x7b'] 1],
      some ⟨.unexpectedCharacter '@', 1⟩⟩ := by decide +kernel
  obtain ⟨w, opens, faults, depth⟩ : ∃ w, open? (scan "x \x7b @") = .ok w ∧
      w.faults braceRequests = [⟨.unexpectedCharacter '@', 1⟩] ∧
      (w.answers braceRequests).2.depth = 2 := by
    rw [text]
    exact ⟨_, rfl, rfl, rfl⟩
  obtain ⟨counts, along, -⟩ := along_iff_no_fault opens braceRequests
  refine ⟨w, opens, faults, depth, counts, fun h => ?_⟩
  rw [along.1 h] at faults
  cases faults

/-- Of two names in front of a fault the second one is shown in both places of the window after the
first one was read, and it can be read twice. -/
theorem consumed_twice :
    ∃ w, open? (scan "a b @") = .ok w ∧
      (scan "a b @").tokens =
        [.ofLexeme .identifier ['a'] 1, .ofLexeme .identifier ['b'] 1] ∧
      w.consumed [.read, .read, .read] = [.ofLexeme .identifier ['a'] 1,
        .ofLexeme .identifier ['b'] 1, .ofLexeme .identifier ['b'] 1] ∧
      (w.answers [.read]).2.current = .ofLexeme .identifier ['b'] 1 ∧
      (w.answers [.read]).2.next = .ofLexeme .identifier ['b'] 1 ∧
      ¬ Along (effective (scan "a b @").tokens) (w.consumed [.read]) (w.answers [.read]).2 := by
  have text : scan "a b @" = ⟨[.ofLexeme .identifier ['a'] 1, .ofLexeme .identifier ['b'] 1],
      some ⟨.unexpectedCharacter '@', 1⟩⟩ := by decide +kernel
  rw [text]
  exact ⟨_, rfl, rfl, rfl, rfl, rfl, fun h => nomatch h.next⟩

end Window

end Lox
