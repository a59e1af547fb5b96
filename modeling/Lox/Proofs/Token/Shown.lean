import Lox.Proofs.Token.Reads

/-!
# The tokens of a feed by their places

`f.shown i` is what a window is shown by the feed `f` at the place `i`, counted from zero: a token,
or a fault in place of one. `w.shown i` is the same counted from the token that the window `w` is
about to read. A window that opens on a feed is shown what the feed shows (`shown_of_open`), and
reading moves on from place to place (`Reads.shown`). So what can be read from one feed can be read
from another that shows the same (`exists_reads_of_shown`), as long as no fault stands at the place
behind: it comes up one token early, because a window draws the token behind the one that it is
about to read.
-/

namespace Lox

/-- What a feed shows at a place. The first mark of the end goes on for ever, since nothing behind
it is drawn. -/
def Feed.shown (f : Feed) : Nat → Except LexicalError Token
  | 0 => f.pull.1
  | i + 1 =>
    match f.pull with
    | (.ok t, rest) => if t.isEof then .ok t else rest.shown i
    | (.error _, rest) => rest.shown i

/-- Where no token in front of the fault marks the end, the fault is shown behind all of them. -/
theorem Feed.shown_of_fault {ts : List Token} {e : LexicalError}
    (others : ∀ t ∈ ts, t.isEof = false) : Feed.shown ⟨ts, some e⟩ ts.length = .error e := by
  induction ts with
  | nil => rfl
  | cons t ts ih =>
    rw [List.forall_mem_cons] at others
    rw [List.length_cons, Feed.shown, Feed.pull]
    simpa only [others.1, Bool.false_eq_true, if_false] using ih others.2

namespace Window

/-- What a window is shown at a place, counted from the token to be read. -/
def shown (w : Window) : Nat → Except LexicalError Token
  | 0 => .ok w.current
  | 1 => .ok (if w.current.isEof then w.current else w.next)
  | i + 2 =>
    if w.current.isEof then .ok w.current
    else if w.next.isEof then .ok w.next else w.feed.shown i

variable {f g : Feed} {v v' w w' x : Window} {e : LexicalError} {ts us : List Token}

/-- Where the mark of the end is shown, it is shown at all places behind. -/
theorem shown_of_atEnd (atEnd : w.atEnd = true) (i : Nat) : w.shown i = .ok w.current := by
  have current : w.current.isEof = true := atEnd
  rcases i with _ | _ | i <;> simp [shown, current]

/-! ## One step -/

/-- A step of the window meets the fault that is shown at the second place behind the token that it
reads. -/
theorem exists_advanced_iff (start : w.atEnd = false) :
    (∃ v, w.advanced = (some e, v)) ↔ w.shown 2 = .error e := by
  have current : w.current.isEof = false := start
  -- A step draws a token just if the second one is not the mark of the end.
  cases last : w.next.isEof with
  | true => simp [advanced, shifted, shown, start, current, last]
  | false =>
    have drawn : w.shown 2 = w.feed.pull.1 := by
      simp [shown, current, last, Feed.shown]
    rw [drawn, advanced, start, shifted, last]
    rcases w.feed.pull with ⟨_ | t, rest⟩ <;> simp

/-- A step of the window goes on to the next place. -/
theorem shown_of_advanced (start : w.atEnd = false) (step : w.advanced = (none, v)) (i : Nat) :
    v.shown i = w.shown (i + 1) := by
  have current : w.current.isEof = false := start
  rw [advanced, start, shifted] at step
  cases last : w.next.isEof with
  | true =>
    rw [last] at step
    obtain rfl : { w.moved with next := .eof } = v := by simpa using step
    -- The mark of the end is the token to be read now, so it is shown at all places.
    have ended : ({ w.moved with next := .eof } : Window).atEnd = true := last
    rw [shown_of_atEnd ended]
    rcases i with _ | i <;> simp [moved, shown, current, last]
  | false =>
    rw [last] at step
    cases drawn : w.feed.pull with
    | mk r rest =>
      cases r with
      | error e => simp [drawn] at step
      | ok t =>
        obtain rfl : { w.moved with next := t, feed := rest } = v := by simpa [drawn] using step
        -- The window itself shows two places; from the third on they are those of its feed.
        rcases i with _ | _ | i <;>
          simp [moved, shown, current, last, Feed.shown, drawn]

/-! ## Reading -/

/-- Reading some tokens goes on by as many places. -/
theorem Reads.shown (h : w.Reads ts w') (i : Nat) : w'.shown i = w.shown (ts.length + i) := by
  induction ts generalizing w with
  | nil => rw [reads_nil.1 h, List.length_nil, Nat.zero_add]
  | cons t ts ih =>
    obtain ⟨start, -, v, step, rest⟩ := reads_cons.1 h
    calc w'.shown i = v.shown (ts.length + i) := ih rest
      _ = w.shown (ts.length + i + 1) := shown_of_advanced start step _
      _ = w.shown ((t :: ts).length + i) := by rw [List.length_cons, Nat.add_right_comm]

/-- What is read from one window is read from another that is shown the same, if no fault stands
behind it. -/
theorem exists_reads_of_shown (h : v.Reads ts v') (same : ∀ i ≤ ts.length, w.shown i = v.shown i)
    (clear : ∀ e, w.shown (ts.length + 1) ≠ .error e) : ∃ w', w.Reads ts w' := by
  induction ts generalizing v w with
  | nil => exact ⟨w, .refl w⟩
  | cons t ts ih =>
    obtain ⟨start, first, u, step, rest⟩ := reads_cons.1 h
    have current : w.current = v.current := Except.ok.inj (same 0 (Nat.zero_le _))
    have start' : w.atEnd = false := by rw [atEnd, current, ← atEnd, start]
    -- The place of a fault that a step meets is not behind the tokens that can be read, and at their
    -- places there are no faults.
    have met : ∀ e, w.shown 2 ≠ .error e := by
      intro e fault
      cases ts with
      | nil => exact clear e fault
      | cons t' ts =>
        rw [same 2 (by simp)] at fault
        obtain ⟨x, faulty⟩ := (exists_advanced_iff start).2 fault
        cases step.symm.trans faulty
    obtain ⟨x, step'⟩ : ∃ x, w.advanced = (none, x) := by
      cases advanced : w.advanced with
      | mk r x =>
        cases r with
        | none => exact ⟨x, rfl⟩
        | some e => exact absurd ((exists_advanced_iff start').1 ⟨x, advanced⟩) (met e)
    have moved (i : Nat) : x.shown i = w.shown (i + 1) := shown_of_advanced start' step' i
    obtain ⟨w', rest'⟩ := ih (w := x) rest
      (fun i le => by
        rw [moved, same (i + 1) (Nat.succ_le_succ le), shown_of_advanced start step])
      (fun e => by
        rw [moved]
        exact clear e)
    exact ⟨w', start', current.trans first, x, step', rest'⟩

/-! ## Opening -/

/-- A window that opens on a feed is shown what the feed shows, and nothing was read before. -/
theorem shown_of_open (h : open? f = .ok w) :
    (∀ i, w.shown i = f.shown i) ∧ w.position = 0 ∧ w.depth = 0 := by
  rw [open?] at h
  -- Opening draws one token, and another one unless the first is the mark of the end.
  cases first : f.pull with
  | mk r rest =>
    cases r with
    | error e => simp [first] at h
    | ok t =>
      cases last : t.isEof with
      | true =>
        obtain rfl : (⟨none, t, .eof, rest, 0, 0⟩ : Window) = w := by simpa [first, last] using h
        have ended : (⟨none, t, .eof, rest, 0, 0⟩ : Window).atEnd = true := last
        refine ⟨fun i => ?_, rfl, rfl⟩
        rw [shown_of_atEnd ended]
        cases i <;> simp [Feed.shown, first, last]
      | false =>
        cases second : rest.pull with
        | mk r' rest' =>
          cases r' with
          | error e => simp [first, last, second] at h
          | ok u =>
            obtain rfl : (⟨none, t, u, rest', 0, 0⟩ : Window) = w := by
              simpa [first, last, second] using h
            refine ⟨fun i => ?_, rfl, rfl⟩
            rcases i with _ | _ | i <;> simp [shown, Feed.shown, first, last, second]

/-- Where some tokens of a feed were read, the window is shown what the feed shows behind as many
places, and it has counted these tokens and the braces among them. -/
theorem Reads.of_open (opens : open? f = .ok v) (h : v.Reads ts w) :
    (∀ i, w.shown i = f.shown (ts.length + i)) ∧ w.position = ts.length ∧
      w.depth = ts.foldl depthAfter 0 := by
  obtain ⟨shown, start, closed⟩ := shown_of_open opens
  refine ⟨fun i => by rw [h.shown, shown], ?_, ?_⟩
  · rw [h.position, start, Nat.zero_add]
  · rw [h.depth, closed]

/-- A window opens on a feed that shows no fault at its first two places. -/
theorem exists_open_of_shown (first : ∀ e, f.shown 0 ≠ .error e)
    (second : ∀ e, f.shown 1 ≠ .error e) :
    ∃ w, open? f = .ok w := by
  cases drawn : f.pull with
  | mk r rest =>
    cases r with
    | error e => exact absurd (by rw [Feed.shown, drawn]) (first e)
    | ok t =>
      cases last : t.isEof with
      | true => exact ⟨_, by rw [open?, drawn]; simp only [last]; rfl⟩
      | false =>
        cases drawn' : rest.pull with
        | mk r' rest' =>
          cases r' with
          | error e => exact absurd (by simp [Feed.shown, drawn, last, drawn']) (second e)
          | ok u => exact ⟨_, by rw [open?, drawn]; simp only [last, drawn']; rfl⟩

/-- What is read from one feed is read from another that shows the same, up to the same token, if no
fault stands behind this. -/
theorem exists_reads_of_open (opens : open? f = .ok v) (h : v.Reads ts v')
    (same : ∀ i ≤ ts.length, g.shown i = f.shown i)
    (clear : ∀ e, g.shown (ts.length + 1) ≠ .error e) :
    ∃ w w', open? g = .ok w ∧ w.Reads ts w' ∧ w'.current = v'.current := by
  have shown := (shown_of_open opens).1
  have first : g.shown 0 = .ok v.current := (same 0 (Nat.zero_le _)).trans (shown 0).symm
  -- The second place is behind the tokens or among them.
  have second : ∀ e, g.shown 1 ≠ .error e := by
    cases ts with
    | nil => exact clear
    | cons t ts =>
      rw [same 1 (by simp), ← shown 1]
      exact fun e => nofun
  obtain ⟨w, opens'⟩ := exists_open_of_shown (fun e => by rw [first]; exact nofun) second
  have shown' := (shown_of_open opens').1
  obtain ⟨w', h'⟩ := exists_reads_of_shown h (fun i le => by rw [shown', same i le, shown])
    (fun e => by rw [shown']; exact clear e)
  refine ⟨w, w', opens', h', Except.ok.inj (?_ : w'.shown 0 = v'.shown 0)⟩
  rw [(h'.of_open opens').1, (h.of_open opens).1, same _ (Nat.le_of_eq (Nat.add_zero _))]

end Window

end Lox
