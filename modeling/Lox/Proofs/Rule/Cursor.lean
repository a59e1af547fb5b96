import Lox.Proofs.Rule.Outcome
import Lox.Proofs.Token.Braces

/-!
# Windows are cursors

Over a list of tokens a window is nothing but a cursor on the row of tokens that ends with the first
mark of the end (`effective`). Whatever is asked of a window, one request after the other, it
answers as the cursor does, and it always shows and counts what the cursor's place says
(`requests_refine_cursor`), although it draws the tokens one at a time and never more than two
ahead.

The invariant is `Window.At`: it says which tokens the two slots of a window hold and exactly which
were drawn. One step of the window keeps it (`Window.At.advanced`), and each request is at most one
step.
-/

namespace Lox

/-- The tokens of a list up to its first mark of the end. If it has none, a bare one comes behind
them. -/
def effective : List Token → List Token
  | [] => [.eof]
  | t :: ts => if t.isEof then [t] else t :: effective ts

/-- What can be asked of a window. -/
inductive Request
  /-- To read a token. -/
  | read
  /-- Whether a token of a type comes. -/
  | comes (type : TokenType)
  /-- To read a token if it has one of some types. -/
  | accept (types : List TokenType)
  /-- To read a token of a type, with what is said if another one comes. -/
  | expect (type : TokenType) (message : String)

/-- What a request is answered with. -/
inductive Reply
  /-- The token that was read. -/
  | token (t : Token)
  /-- Whether a token comes, or came and was read. -/
  | answer (b : Bool)
  /-- The request fails. -/
  | failed (why : Interrupt)

namespace Reply

/-- Whether nothing was found that could be read. -/
def isNegative : Reply → Bool
  | token _ | answer true => false
  | answer false | failed _ => true

end Reply

/-- The rule that a request runs. -/
def Request.rule : Request → Rule Reply
  | read => Reply.token <$> Rule.read
  | comes type => Reply.answer <$> Rule.comes type
  | accept types => (fun found => .answer found.isSome) <$> Rule.accept types
  | expect type message => Reply.token <$> Rule.expect type message

/-- What a window answers, and the window afterwards. -/
def Window.answer (w : Window) (q : Request) : Reply × Window :=
  match q.rule w with
  | .ok reply w' => (reply, w')
  | .error why w' => (.failed why, w')

/-- What a window answers to one request after the other, and the window in the end. -/
def Window.answers (w : Window) : List Request → List Reply × Window
  | [] => ([], w)
  | q :: qs =>
    let (reply, w') := w.answer q
    let (replies, last) := w'.answers qs
    (reply :: replies, last)

/-- A place in a row of tokens. -/
structure Cursor where
  /-- The row, which ends with a mark of the end. -/
  row : List Token
  /-- How many of its tokens were passed. -/
  place : Nat

namespace Cursor

/-- The token at the place. -/
def current (c : Cursor) : Token := c.row[c.place]?.getD .eof

/-- The place after that token. There is none after the end. -/
def passed (c : Cursor) : Cursor :=
  if c.current.isEof then c else { c with place := c.place + 1 }

/-- Passing a token stays in the row. -/
theorem passed_eq (c : Cursor) : c.passed = ⟨c.row, c.passed.place⟩ := by
  unfold passed
  split <;> rfl

/-- What a cursor answers, and where it is afterwards. -/
def answer (c : Cursor) : Request → Reply × Cursor
  | .read => (.token c.current, c.passed)
  | .comes type => (.answer (c.current.type == type), c)
  | .accept types =>
    if c.current.type ∈ types then (.answer true, c.passed) else (.answer false, c)
  | .expect type message =>
    if c.current.isEof then
      (.failed (.broken ⟨.unexpectedEnd (.type type) message, c.current⟩), c)
    else if c.current.type = type then (.token c.current, c.passed)
    else (.failed (.broken ⟨.unexpectedToken (.type type) message, c.current⟩), c)

/-- What a cursor answers to one request after the other, and where it is in the end. -/
def answers (c : Cursor) : List Request → List Reply × Cursor
  | [] => ([], c)
  | q :: qs =>
    let (reply, c') := c.answer q
    let (replies, last) := c'.answers qs
    (reply :: replies, last)

end Cursor

/-! ## Rows that end -/

section Rows

variable (ts : List Token)

/-- The row that ends with the first mark of the end has a token. -/
theorem effective_pos : 0 < (effective ts).length := by
  cases ts with
  | nil => exact Nat.one_pos
  | cons t ts =>
    rw [effective]
    split <;> exact Nat.succ_pos _

/-- The mark of the end is the last token of its row, and the first one that marks an end. -/
theorem findIdx_effective : (effective ts).findIdx (·.isEof) + 1 = (effective ts).length := by
  induction ts with
  | nil => rfl
  | cons t ts ih =>
    rw [effective]
    cases isEof : t.isEof with
    | true => simp [List.findIdx_cons, isEof]
    | false => simpa [List.findIdx_cons, isEof] using ih

/-- Among the places of the row only the last one shows a mark of the end. Behind it there are none,
so a mark of the end is shown there, too. -/
theorem isEof_effective (i : Nat) :
    ((effective ts)[i]?.getD .eof).isEof = true ↔ (effective ts).length ≤ i + 1 := by
  induction ts generalizing i with
  | nil => cases i <;> simp [effective]
  | cons t ts ih =>
    rw [effective]
    cases isEof : t.isEof with
    | true => cases i <;> simp [isEof]
    | false =>
      have := effective_pos ts
      cases i with
      | zero => simpa [isEof] using List.ne_nil_of_length_pos this
      | succ i => simpa using ih i

/-- What a list gives after some of its tokens is the next one of the row, up to the end. -/
theorem pull_drop {i : Nat} (inside : i < (effective ts).length) :
    Feed.pull ⟨ts.drop i, none⟩ =
      (.ok ((effective ts)[i]?.getD .eof), ⟨ts.drop (i + 1), none⟩) := by
  induction ts generalizing i with
  | nil =>
    obtain rfl : i = 0 := by simpa [effective] using inside
    rfl
  | cons t ts ih =>
    rw [effective] at inside ⊢
    cases isEof : t.isEof with
    | true =>
      rw [isEof] at inside
      obtain rfl : i = 0 := by simpa using inside
      rfl
    | false =>
      rw [isEof] at inside
      cases i with
      | zero => rfl
      | succ i => exact ih (Nat.lt_of_succ_lt_succ inside)

/-- Before the end of the row a list has no mark of the end. -/
theorem isEof_of_mem_take (t : Token) (mem : t ∈ ts.take ((effective ts).length - 1)) :
    t.isEof = false := by
  induction ts with
  | nil => simp at mem
  | cons u ts ih =>
    rw [effective] at mem
    cases isEof : u.isEof with
    | true => simp [isEof] at mem
    | false =>
      have := effective_pos ts
      rw [isEof, if_neg Bool.false_ne_true, List.length_cons, Nat.add_sub_cancel,
        ← Nat.sub_add_cancel this, List.take_succ_cons] at mem
      rcases List.mem_cons.1 mem with rfl | mem
      · exact isEof
      · exact ih mem

/-- Tokens none of which marks the end are followed by a bare mark of the end. -/
theorem effective_of_forall (others : ∀ t ∈ ts, t.isEof = false) :
    effective ts = ts ++ [.eof] := by
  induction ts with
  | nil => rfl
  | cons t ts ih =>
    rw [List.forall_mem_cons] at others
    rw [effective, others.1, ih others.2]
    rfl

end Rows

/-! ## Windows at a place -/

namespace Window

/-- A window over a list of tokens stands at a place of the row that ends with the first mark of the
end, and has drawn two tokens more than it has read, but none behind the end. -/
structure At (ts : List Token) (place : Nat) (w : Window) : Prop where
  /-- The place is the number of tokens that were read. -/
  position : w.position = place
  /-- It is not behind the end. -/
  inside : place ≤ (effective ts).findIdx (·.isEof)
  /-- The token there is the one to be read. -/
  current : (effective ts)[place]? = some w.current
  /-- The token before it is the one that was read last. -/
  previous : w.previous = if place = 0 then none else (effective ts)[place - 1]?
  /-- The token behind it is the second one of the window, a bare mark of the end if there is none.
  -/
  next : w.next = (effective ts)[place + 1]?.getD .eof
  /-- The tokens before it leave as many braces open as the window counts. -/
  depth : w.depth = openBraces ((effective ts).take place)
  /-- The other tokens are still to be drawn. -/
  feed : w.feed = ⟨ts.drop (min (place + 2) (effective ts).length), none⟩

variable {ts : List Token} {place : Nat} {w : Window}

/-- A window is at the end just if it stands at the last place. -/
theorem At.atEnd_iff (h : w.At ts place) : w.atEnd = true ↔ (effective ts).length ≤ place + 1 := by
  rw [← isEof_effective, h.current]
  rfl

/-- The cursor at the same place shows the same token. -/
theorem At.current_eq (h : w.At ts place) :
    (Cursor.mk (effective ts) place).current = w.current := by
  rw [Cursor.current, h.current]
  rfl

/-- A window that is opened on a list stands at the first place. -/
theorem exists_open_at (ts : List Token) : ∃ w, open? (.ofList ts) = .ok w ∧ w.At ts 0 := by
  have pos := effective_pos ts
  have first : (Feed.ofList ts).pull = (.ok ((effective ts)[0]?.getD .eof), ⟨ts.drop 1, none⟩) :=
    pull_drop ts pos
  have shown : (effective ts)[0]? = some ((effective ts)[0]?.getD .eof) := by
    rw [List.getElem?_eq_getElem pos]
    rfl
  have last := isEof_effective ts 0
  rw [open?, first]
  generalize (effective ts)[0]?.getD .eof = t at shown last
  -- A second token is drawn unless the first one is the mark of the end.
  cases isEof : t.isEof with
  | true =>
    have length := last.1 isEof
    refine ⟨⟨none, t, .eof, ⟨ts.drop 1, none⟩, 0, 0⟩, by simp only [isEof, if_true], rfl,
      Nat.zero_le _, shown, rfl, ?_, rfl, ?_⟩
    · rw [List.getElem?_eq_none length]
      rfl
    · rw [Nat.min_eq_right (Nat.le_succ_of_le length), Nat.le_antisymm length pos]
  | false =>
    have length : 1 < (effective ts).length := by
      rw [isEof] at last
      simpa using last
    refine ⟨⟨none, t, (effective ts)[1]?.getD .eof, ⟨ts.drop 2, none⟩, 0, 0⟩, ?_, rfl,
      Nat.zero_le _, shown, rfl, rfl, rfl, ?_⟩
    · simp only [isEof, pull_drop ts length, Bool.false_eq_true, if_false]
    · rw [Nat.min_eq_left length]

/-- In front of the end a window is moved to the next place, without a fault. -/
theorem At.advanced (h : w.At ts place) (start : w.atEnd = false) :
    ∃ v, w.advanced = (none, v) ∧ v.At ts (place + 1) := by
  obtain ⟨position, inside, current, previous, next, depth, feed⟩ := id h
  have here : place + 1 < (effective ts).length := by
    have := h.atEnd_iff
    rw [start] at this
    simpa using this
  have last := findIdx_effective ts
  have shown : (effective ts)[place + 1]? = some w.next := by
    rw [next, List.getElem?_eq_getElem here]
    rfl
  have braces : depthAfter w.depth w.current = openBraces ((effective ts).take (place + 1)) := by
    rw [depth, ← openBraces_concat, List.take_add_one, current, Option.toList_some]
  -- The window that is moved, whatever its second token and its feed are.
  have stands : ∀ t f, t = (effective ts)[place + 2]?.getD .eof →
      f = Feed.mk (ts.drop (min (place + 3) (effective ts).length)) none →
      At ts (place + 1) { w.moved with next := t, feed := f } := fun t f second drawn =>
    { position := congrArg (· + 1) position
      inside := by omega
      current := shown
      previous := current.symm
      next := second
      depth := braces
      feed := drawn }
  have behind := isEof_effective ts (place + 1)
  rw [← next] at behind
  rw [Window.advanced, start, shifted]
  cases isEof : w.next.isEof with
  | true =>
    -- The second token is the mark of the end, and nothing is drawn.
    have length := behind.1 isEof
    refine ⟨_, rfl, stands _ _ ?_ ?_⟩
    · rw [List.getElem?_eq_none length]
      rfl
    · change w.feed = _
      rw [feed, Nat.min_eq_right length, Nat.min_eq_right (Nat.le_succ_of_le length)]
  | false =>
    have length : place + 2 < (effective ts).length := by
      rw [isEof] at behind
      simpa using behind
    rw [feed, Nat.min_eq_left (Nat.le_of_lt length), pull_drop ts length]
    refine ⟨_, rfl, stands _ _ rfl ?_⟩
    rw [Nat.min_eq_left length]

/-- Reading from a place of a row goes on by as many places, and reads the tokens there. -/
theorem At.reads {us : List Token} {v : Window} (h : w.At ts place) (reads : w.Reads us v) :
    v.At ts (place + us.length) ∧
      (effective ts).take (place + us.length) = (effective ts).take place ++ us := by
  induction us generalizing w place with
  | nil =>
    rw [reads_nil.1 reads, List.append_nil]
    exact ⟨h, rfl⟩
  | cons u us ih =>
    obtain ⟨start, rfl, x, step, rest⟩ := reads_cons.1 reads
    obtain ⟨x', step', moved⟩ := h.advanced start
    obtain rfl : x' = x := by simpa using step'.symm.trans step
    obtain ⟨stands, row⟩ := ih moved rest
    rw [List.length_cons, Nat.add_comm us.length, ← Nat.add_assoc]
    refine ⟨stands, ?_⟩
    rw [row, List.take_add_one, h.current, Option.toList_some, List.append_assoc,
      List.singleton_append]

/-! ## Requests -/

/-- At a place a token is read, which is not the mark of the end, or nothing happens. -/
theorem At.read (h : w.At ts place) : ∃ v, Rule.read w = .ok w.current v ∧
    v.At ts (Cursor.mk (effective ts) place).passed.place ∧ (w.atEnd = true → v = w) := by
  rw [Cursor.passed, h.current_eq, Rule.read_eq]
  cases start : w.atEnd with
  | true =>
    have stays : w.advanced = (none, w) := by rw [Window.advanced, if_pos start]
    rw [stays, if_pos (show w.current.isEof = true from start)]
    exact ⟨w, rfl, h, fun _ => rfl⟩
  | false =>
    obtain ⟨v, step, moved⟩ := h.advanced start
    have notEof : w.current.isEof = false := start
    rw [step, notEof]
    exact ⟨v, rfl, moved, fun atEnd => absurd atEnd Bool.false_ne_true⟩

/-- A rule that succeeds answers a request. -/
theorem answer_of_ok {q : Request} {reply : Reply} {v : Window} (h : q.rule w = .ok reply v) :
    w.answer q = (reply, v) := by
  rw [answer, h]

/-- A rule that breaks off answers a request. -/
theorem answer_of_error {q : Request} {why : Interrupt} {v : Window}
    (h : q.rule w = .error why v) : w.answer q = (.failed why, v) := by
  rw [answer, h]

/-- A window answers as the cursor at its place does, and stands at the cursor's place afterwards.
It is the same window if nothing was found that could be read. -/
theorem At.answer (h : w.At ts place) (q : Request) : ∃ reply v place',
    w.answer q = (reply, v) ∧
      (Cursor.mk (effective ts) place).answer q = (reply, ⟨effective ts, place'⟩) ∧
      v.At ts place' ∧ (reply.isNegative = true → v = w) := by
  have shown := h.current_eq
  obtain ⟨v, ran, moved, -⟩ := h.read
  have passed := (Cursor.mk (effective ts) place).passed_eq
  -- What a request does depends on the token that is shown alone, and it moves on just if it reads.
  cases q with
  | read =>
    refine ⟨.token w.current, v, _, answer_of_ok (Rule.map_of_ok ran), ?_, moved, Bool.noConfusion⟩
    rw [Cursor.answer, shown, ← passed]
  | comes type =>
    have asked : Rule.comes type w = .ok (w.current.type == type) w := rfl
    refine ⟨_, w, place, answer_of_ok (Rule.map_of_ok asked), ?_, h, fun _ => rfl⟩
    rw [Cursor.answer, shown]
  | accept types =>
    rw [Cursor.answer, shown]
    by_cases found : w.current.type ∈ types
    · have ran' : Rule.accept types w = .ok (some w.current) v := by
        rw [Rule.accept, Rule.peek_bind, List.contains_eq_mem, decide_eq_true found, if_pos rfl]
        exact Rule.map_of_ok ran
      refine ⟨_, v, _, answer_of_ok (Rule.map_of_ok ran'), ?_, moved, Bool.noConfusion⟩
      rw [if_pos found, ← passed]
      rfl
    · refine ⟨_, w, place, answer_of_ok (Rule.map_of_ok (Rule.accept_of_not_mem found)), ?_, h,
        fun _ => rfl⟩
      rw [if_neg found]
      rfl
  | expect type message =>
    rw [Cursor.answer, shown]
    cases start : w.current.isEof with
    | true =>
      exact ⟨_, w, place, answer_of_error (Rule.map_of_error (Rule.expect_of_atEnd start)), rfl, h,
        fun _ => rfl⟩
    | false =>
      by_cases same : w.current.type = type
      · have ran' : Rule.expect type message w = .ok w.current v := by
          rw [Rule.expect, Rule.peek_bind, start, same]
          simpa using ran
        refine ⟨.token w.current, v, _, answer_of_ok (Rule.map_of_ok ran'), ?_, moved,
          Bool.noConfusion⟩
        rw [if_neg Bool.false_ne_true, if_pos same, ← passed]
      · refine ⟨_, w, place, answer_of_error (Rule.map_of_error (Rule.expect_of_ne start same)), ?_,
          h, fun _ => rfl⟩
        rw [if_neg Bool.false_ne_true, if_neg same]

/-- Windows answer one request after the other as the cursors at their places do. -/
theorem At.answers (h : w.At ts place) (qs : List Request) : ∃ replies v place',
    w.answers qs = (replies, v) ∧
      (Cursor.mk (effective ts) place).answers qs = (replies, ⟨effective ts, place'⟩) ∧
      v.At ts place' := by
  -- By induction on the requests. Each one is answered alike, and afterwards the window stands at
  -- the place of the cursor again.
  induction qs generalizing w place with
  | nil => exact ⟨[], w, place, rfl, rfl, h⟩
  | cons q qs ih =>
    obtain ⟨reply, v, place', answered, same, at', -⟩ := h.answer q
    obtain ⟨replies, last, end', answered', same', at''⟩ := ih at'
    refine ⟨reply :: replies, last, end', ?_, ?_, at''⟩
    · rw [Window.answers, answered]
      simp only [answered']
    · rw [Cursor.answers, same]
      simp only [same']

/-- The tokens that were drawn are those that were read and two more at most, and none of them came
behind a mark of the end. -/
theorem At.drawn (h : w.At ts place) : ∃ drawn, ts = drawn ++ w.feed.tokens ∧
    drawn.length ≤ place + 2 ∧ ∀ t ∈ drawn.dropLast, t.isEof = false := by
  refine ⟨ts.take (min (place + 2) (effective ts).length), ?_, ?_, fun t mem => ?_⟩
  · rw [h.feed, List.take_append_drop]
  · rw [List.length_take]
    omega
  · rw [List.dropLast_eq_take, List.take_take, List.length_take] at mem
    exact isEof_of_mem_take ts t (List.take_subset_take_left ts (by omega) mem)

end Window

/-- **A window over a list is a cursor.** Take any list of tokens and the row of those up to its
first mark of the end. A window opens on the list, and whatever it is asked, one request after the
other, it gives the same answers as a cursor that starts at the first place of the row. In the end
it stands at the place of the cursor: it shows the token there and the one behind it, the token that
was read last is the one before it, and the count of open braces is that of the tokens before it
(`Window.At`). Of the list it has drawn two tokens more than it has read at most, and none behind a
mark of the end. Any further request that finds nothing to read leaves the window as it is. At the
end this is so of any attempt to read, and to expect a token there fails with the error `P010`,
whatever type is asked for. -/
theorem requests_refine_cursor (ts : List Token) :
    ∃ w, Window.open? (.ofList ts) = .ok w ∧ ∀ qs : List Request, ∃ replies v place,
      w.answers qs = (replies, v) ∧
      (Cursor.mk (effective ts) 0).answers qs = (replies, ⟨effective ts, place⟩) ∧
      v.At ts place ∧
      (∃ drawn, ts = drawn ++ v.feed.tokens ∧ drawn.length ≤ place + 2 ∧
        ∀ t ∈ drawn.dropLast, t.isEof = false) ∧
      (∀ q, (v.answer q).1.isNegative = true → (v.answer q).2 = v) ∧
      (v.atEnd = true → v.answer .read = (.token v.current, v)) ∧
      (v.atEnd = true → ∀ type message, ∃ e, e.cause.code = "P010" ∧
        v.answer (.expect type message) = (.failed (.broken e), v)) := by
  obtain ⟨w, opened, start⟩ := Window.exists_open_at ts
  refine ⟨w, opened, fun qs => ?_⟩
  obtain ⟨replies, v, place, answered, same, stands⟩ := start.answers qs
  refine ⟨replies, v, place, answered, same, stands, stands.drawn, fun q negative => ?_,
    fun atEnd => ?_, fun atEnd type message => ?_⟩
  · obtain ⟨reply, v', -, asked, -, -, stays⟩ := stands.answer q
    rw [asked] at negative ⊢
    exact stays negative
  · obtain ⟨v', ran, -, stays⟩ := stands.read
    rw [stays atEnd] at ran
    exact Window.answer_of_ok (Rule.map_of_ok ran)
  · exact ⟨_, rfl, Window.answer_of_error (Rule.map_of_error (Rule.expect_of_atEnd atEnd))⟩

end Lox
