import Lox.Token.Window

/-!
# Reading through a window

`w.Reads ts w'` says that reading the tokens `ts` leads from the window `w` to the window `w'`, with
no fault on the way. It is what a rule does to its window, whatever the rule makes of the tokens,
and so the windows in between never have to be named. What a window counts (its position, its open
braces, the token before it) is a function of the tokens that were read.

Where the feed has no fault a window is a list of tokens to come, `ahead`, and a mark of the end
after them, `ending`. `Reads` then splits that list (`Reads.ahead`, `exists_reads`).
-/

namespace Lox.Window

/-- Reading some tokens, none of which marks the end, leads from one window to another. -/
def Reads : Window → List Token → Window → Prop
  | w, [], w' => w' = w
  | w, t :: ts, w' =>
    w.atEnd = false ∧ w.current = t ∧ ∃ v, w.advanced = (none, v) ∧ Reads v ts w'

@[simp] theorem reads_nil {w w' : Window} : w.Reads [] w' ↔ w' = w := Iff.rfl

/-- The first token that is read is the one that the window shows. -/
theorem reads_cons {w w' : Window} {t : Token} {ts : List Token} :
    w.Reads (t :: ts) w' ↔
      w.atEnd = false ∧ w.current = t ∧ ∃ v, w.advanced = (none, v) ∧ v.Reads ts w' := Iff.rfl

/-- Reading no token stays where it is. -/
theorem Reads.refl (w : Window) : w.Reads [] w := rfl

/-- Reading two rows of tokens is reading one and then the other. -/
theorem reads_append {w w' : Window} {ts us : List Token} :
    w.Reads (ts ++ us) w' ↔ ∃ v, w.Reads ts v ∧ v.Reads us w' := by
  induction ts generalizing w with
  | nil => simp
  | cons t ts ih =>
    rw [List.cons_append, reads_cons]
    constructor
    · rintro ⟨start, shown, v, step, rest⟩
      obtain ⟨u, hu, hw⟩ := ih.1 rest
      exact ⟨u, ⟨start, shown, v, step, hu⟩, hw⟩
    · rintro ⟨u, ⟨start, shown, v, step, hu⟩, hw⟩
      exact ⟨start, shown, v, step, ih.2 ⟨u, hu, hw⟩⟩

/-- Reading on from where some tokens led. -/
theorem Reads.append {w v w' : Window} {ts us : List Token} (h : w.Reads ts v)
    (h' : v.Reads us w') : w.Reads (ts ++ us) w' :=
  reads_append.2 ⟨v, h, h'⟩

/-- A single token is read by one step of the window. -/
theorem reads_singleton {w w' : Window} {t : Token} :
    w.Reads [t] w' ↔ w.atEnd = false ∧ w.current = t ∧ w.advanced = (none, w') := by
  simp only [reads_cons, reads_nil]
  grind

/-- The first token is read before the others. -/
theorem reads_head {w w' : Window} {t : Token} {ts : List Token} :
    w.Reads (t :: ts) w' ↔ ∃ v, w.Reads [t] v ∧ v.Reads ts w' := by
  rw [← List.singleton_append, reads_append]

/-- What one step of the window changes, beside the tokens to come. -/
theorem moved_of_advanced {w v : Window} {met : Option LexicalError} (start : w.atEnd = false)
    (step : w.advanced = (met, v)) :
    v.previous = some w.current ∧ v.current = w.next ∧ v.position = w.position + 1 ∧
      v.depth = depthAfter w.depth w.current := by
  simp only [advanced, start, shifted] at step
  split at step
  · grind [moved]
  · split at step <;> grind [moved]

/-- A token that is drawn becomes the second one of the window. -/
theorem advanced_of_cons {w : Window} {t : Token} {ts : List Token}
    (current : w.current.isEof = false) (next : w.next.isEof = false)
    (tokens : w.feed.tokens = t :: ts) :
    w.advanced = (none, { w.moved with next := t, feed := ⟨ts, w.feed.fault⟩ }) := by
  simp [advanced, atEnd, current, shifted, next, Feed.pull, tokens]

/-- A fault that is drawn leaves the second token of the window as it was. -/
theorem advanced_of_nil {w : Window} {e : LexicalError} (current : w.current.isEof = false)
    (next : w.next.isEof = false) (tokens : w.feed.tokens = []) (fault : w.feed.fault = some e) :
    w.advanced = (some e, { w.moved with feed := .dry }) := by
  simp [advanced, atEnd, current, shifted, next, Feed.pull, tokens, fault]

/-- No fault comes up at the end. -/
theorem atEnd_of_fault {w w' : Window} {e : LexicalError} (fault : w.advanced = (some e, w')) :
    w.atEnd = false := by
  cases last : w.atEnd with
  | false => rfl
  | true =>
    rw [advanced, if_pos last] at fault
    cases fault

/-- A fault that comes up was all that was left, and the second token stays where it was. -/
theorem met_of_advanced {w v : Window} {e : LexicalError} (met : w.advanced = (some e, v)) :
    w.atEnd = false ∧ w.next.isEof = false ∧ w.feed = ⟨[], some e⟩ ∧
      v = { w.moved with feed := .dry } := by
  have start := atEnd_of_fault met
  rw [advanced, start, if_neg Bool.false_ne_true, shifted] at met
  split at met
  · cases met
  · rename_i more
    obtain ⟨previous, current, next, ⟨tokens, fault⟩, position, depth⟩ := w
    rcases tokens with _ | ⟨t, tokens⟩ <;> rcases fault with _ | e' <;>
      simp only [Feed.pull, Prod.mk.injEq, reduceCtorEq, false_and, Option.some.injEq] at met
    obtain ⟨rfl, rfl⟩ := met
    exact ⟨start, by simpa using more, rfl, rfl⟩

/-- Each token that is read leaves one fewer to be read. -/
theorem Reads.unread {w w' : Window} {ts : List Token} (h : w.Reads ts w') :
    w'.unread + ts.length = w.unread := by
  induction ts generalizing w with
  | nil => simp [reads_nil.1 h]
  | cons t ts ih =>
    obtain ⟨start, -, v, step, rest⟩ := reads_cons.1 h
    have fewer := unread_advanced step start
    have := ih rest
    rw [List.length_cons]
    omega

/-- Tokens that were read leave fewer to be read, if there are any. -/
theorem Reads.unread_lt {w w' : Window} {ts : List Token} (h : w.Reads ts w') (some : ts ≠ []) :
    w'.unread < w.unread := by
  have := h.unread
  have := List.length_pos_iff.2 some
  omega

/-- The position counts the tokens that were read. -/
theorem Reads.position {w w' : Window} {ts : List Token} (h : w.Reads ts w') :
    w'.position = w.position + ts.length := by
  induction ts generalizing w with
  | nil => simp [reads_nil.1 h]
  | cons t ts ih =>
    obtain ⟨start, -, v, step, rest⟩ := reads_cons.1 h
    have moved := (moved_of_advanced start step).2.2.1
    have := ih rest
    rw [List.length_cons]
    omega

/-- Reading goes forward. -/
theorem Reads.position_lt {w w' : Window} {ts : List Token} (h : w.Reads ts w') (some : ts ≠ []) :
    w.position < w'.position := by
  have := h.position
  have := List.length_pos_iff.2 some
  omega

/-- The open braces follow from the tokens that were read. -/
theorem Reads.depth {w w' : Window} {ts : List Token} (h : w.Reads ts w') :
    w'.depth = ts.foldl depthAfter w.depth := by
  induction ts generalizing w with
  | nil => simp [reads_nil.1 h]
  | cons t ts ih =>
    obtain ⟨start, shown, v, step, rest⟩ := reads_cons.1 h
    rw [ih rest, (moved_of_advanced start step).2.2.2, shown, List.foldl_cons]

/-- The token before the window is the last that was read. -/
theorem Reads.previous {w w' : Window} {ts : List Token} (h : w.Reads ts w') :
    w'.previous = ts.getLast?.or w.previous := by
  induction ts generalizing w with
  | nil => simp [reads_nil.1 h]
  | cons t ts ih =>
    obtain ⟨start, shown, v, step, rest⟩ := reads_cons.1 h
    rw [ih rest, (moved_of_advanced start step).1, shown]
    cases ts <;> simp [List.getLast?_cons]

/-- Where some tokens led says which tokens they were. -/
theorem Reads.tokens_eq {w w' : Window} {ts us : List Token} (h : w.Reads ts w')
    (h' : w.Reads us w') : ts = us := by
  induction ts generalizing w us with
  | nil =>
    have position := h'.position
    rw [reads_nil.1 h] at position
    exact (List.length_eq_zero_iff.1 (by omega)).symm
  | cons t ts ih =>
    cases us with
    | nil =>
      have position := h.position
      rw [reads_nil.1 h', List.length_cons] at position
      omega
    | cons u us =>
      obtain ⟨-, shown, v, step, rest⟩ := reads_cons.1 h
      obtain ⟨-, shown', v', step', rest'⟩ := reads_cons.1 h'
      rw [step] at step'
      obtain rfl : v = v' := by simpa using step'
      rw [← shown, ← shown', ih rest rest']

/-- The same tokens lead to the same window. -/
theorem Reads.unique {w x y : Window} {ts : List Token} (h : w.Reads ts x) (h' : w.Reads ts y) :
    x = y := by
  induction ts generalizing w with
  | nil => rw [reads_nil.1 h, reads_nil.1 h']
  | cons t ts ih =>
    obtain ⟨-, -, v, step, rest⟩ := reads_cons.1 h
    obtain ⟨-, -, v', step', rest'⟩ := reads_cons.1 h'
    obtain rfl : v = v' := by simpa using step.symm.trans step'
    exact ih rest rest'

/-- No tokens are read beyond a fault. -/
theorem Reads.prefix_of_fault {w w' x y : Window} {e : LexicalError} {ts us : List Token}
    (h : w.Reads ts y) (fault : y.advanced = (some e, w')) (h' : w.Reads us x) : us <+: ts := by
  induction us generalizing w ts with
  | nil => exact List.nil_prefix
  | cons u us ih =>
    obtain ⟨-, shown', v', step', rest'⟩ := reads_cons.1 h'
    cases ts with
    | nil =>
      rw [← reads_nil.1 h, fault] at step'
      cases step'
    | cons t ts =>
      obtain ⟨-, shown, v, step, rest⟩ := reads_cons.1 h
      obtain rfl : v = v' := by simpa using step.symm.trans step'
      exact List.cons_prefix_cons.2 ⟨shown'.symm.trans shown, ih rest rest'⟩

/-- At the end no tokens are read. -/
theorem Reads.eq_nil {w w' : Window} {ts : List Token} (h : w.Reads ts w')
    (atEnd : w.atEnd = true) : ts = [] := by
  cases ts with
  | nil => rfl
  | cons t ts =>
    rw [(reads_cons.1 h).1] at atEnd
    cases atEnd

/-- Where tokens are read the end is still to come. -/
theorem Reads.atEnd_eq_false {w w' : Window} {ts : List Token} (h : w.Reads ts w')
    (some : ts ≠ []) : w.atEnd = false :=
  Bool.eq_false_iff.2 fun atEnd => some (h.eq_nil atEnd)

/-! ## Feeds without a fault -/

/-- The tokens to come before the mark of the end. -/
def ahead (w : Window) : List Token :=
  if w.current.isEof then []
  else w.current :: if w.next.isEof then [] else w.next :: w.feed.tokens.takeWhile (!·.isEof)

/-- The mark of the end that comes after them. -/
def ending (w : Window) : Token :=
  if w.current.isEof then w.current
  else if w.next.isEof then w.next else (w.feed.tokens.dropWhile (!·.isEof)).headD .eof

/-- At the end no tokens are ahead. -/
theorem ahead_eq_nil {w : Window} : w.ahead = [] ↔ w.atEnd = true := by
  simp [ahead, atEnd]

/-- At the end the window shows the mark of the end. -/
theorem current_of_atEnd {w : Window} (h : w.atEnd = true) : w.current = w.ending := by
  simp only [atEnd] at h
  simp [ending, h]

/-- A window shows the first token ahead. -/
theorem current_of_ahead {w : Window} {t : Token} {ts : List Token} (h : w.ahead = t :: ts) :
    w.atEnd = false ∧ w.current = t := by
  unfold ahead at h
  split at h
  · simp at h
  · simp_all [atEnd]

/-- The window over a list of tokens: those before the first mark of the end are ahead. -/
theorem exists_open (ts : List Token) :
    ∃ w, open? (.ofList ts) = .ok w ∧ w.feed.fault = none ∧ w.ahead = ts.takeWhile (!·.isEof) ∧
      w.ending = (ts.dropWhile (!·.isEof)).headD .eof ∧ w.previous = none ∧ w.position = 0 ∧
      w.depth = 0 := by
  rcases ts with _ | ⟨t, ts⟩
  · exact ⟨⟨none, .eof, .eof, .dry, 0, 0⟩, rfl, rfl, rfl, rfl, rfl, rfl, rfl⟩
  · cases ht : t.isEof with
    | true =>
      refine ⟨⟨none, t, .eof, ⟨ts, none⟩, 0, 0⟩, ?_, rfl, ?_, ?_, rfl, rfl, rfl⟩
      · simp [open?, Feed.ofList, Feed.pull, ht]
      · simp [ahead, ht]
      · simp [ending, ht]
    | false =>
      rcases ts with _ | ⟨u, ts⟩
      · refine ⟨⟨none, t, .eof, .dry, 0, 0⟩, ?_, rfl, ?_, ?_, rfl, rfl, rfl⟩
        · simp [open?, Feed.ofList, Feed.pull, ht]
        · simp [ahead, ht]
        · simp [ending, ht]
      · refine ⟨⟨none, t, u, ⟨ts, none⟩, 0, 0⟩, ?_, rfl, ?_, ?_, rfl, rfl, rfl⟩
        · simp [open?, Feed.ofList, Feed.pull, ht]
        · cases hu : u.isEof <;> simp [ahead, ht, hu]
        · cases hu : u.isEof <;> simp [ending, ht, hu]

/-- The window over tokens with a mark of the end behind them: they are ahead, and then that mark
comes. -/
theorem exists_open_ended {ts : List Token} {z : Token} (proper : ∀ t ∈ ts, t.isEof = false)
    (isEnd : z.isEof = true) :
    ∃ w, open? (.ofList (ts ++ [z])) = .ok w ∧ w.feed.fault = none ∧ w.ahead = ts ∧
      w.ending = z ∧ w.previous = none ∧ w.depth = 0 := by
  obtain ⟨w, opened, clear, ahead, ending, previous, -, depth⟩ := exists_open (ts ++ [z])
  have all : ∀ t ∈ ts, (!t.isEof) = true := fun t mem => by rw [proper t mem]; rfl
  rw [List.takeWhile_append_of_pos all] at ahead
  rw [List.dropWhile_append_of_pos all] at ending
  exact ⟨w, opened, clear, by simpa [isEnd] using ahead, by simpa [isEnd] using ending, previous,
    depth⟩

/-- Without a fault the first token ahead can be read, and the others are ahead after it. -/
theorem exists_advanced {w : Window} {t : Token} {ts : List Token} (clear : w.feed.fault = none)
    (h : w.ahead = t :: ts) :
    ∃ v, w.advanced = (none, v) ∧ v.feed.fault = none ∧ v.ahead = ts ∧ v.ending = w.ending := by
  obtain ⟨start, shown⟩ := current_of_ahead h
  obtain ⟨previous, current, next, ⟨tokens, fault⟩, position, depth⟩ := w
  simp only at clear shown
  subst clear shown
  simp only [atEnd] at start
  cases last : next.isEof with
  | true => simp_all [advanced, atEnd, shifted, moved, ahead, ending]
  | false =>
    rcases tokens with _ | ⟨u, tokens⟩
    · simp_all [advanced, atEnd, shifted, moved, ahead, ending, Feed.pull, Feed.dry]
    · cases hu : u.isEof <;>
        simp_all [advanced, atEnd, shifted, moved, ahead, ending, Feed.pull]

/-- Without a fault any row of tokens ahead can be read. -/
theorem exists_reads {w : Window} {ts us : List Token} (clear : w.feed.fault = none)
    (h : w.ahead = ts ++ us) :
    ∃ w', w.Reads ts w' ∧ w'.feed.fault = none ∧ w'.ahead = us ∧ w'.ending = w.ending := by
  induction ts generalizing w with
  | nil => exact ⟨w, rfl, clear, h, rfl⟩
  | cons t ts ih =>
    obtain ⟨v, step, clear', rest, same⟩ := exists_advanced clear h
    obtain ⟨start, shown⟩ := current_of_ahead h
    obtain ⟨w', reads, clear'', rest', same'⟩ := ih clear' rest
    exact ⟨w', ⟨start, shown, v, step, reads⟩, clear'', rest', same'.trans same⟩

/-- Without a fault the tokens that were read were ahead, before those ahead afterwards. -/
theorem Reads.ahead {w w' : Window} {ts : List Token} (h : w.Reads ts w')
    (clear : w.feed.fault = none) :
    w.ahead = ts ++ w'.ahead ∧ w'.ending = w.ending ∧ w'.feed.fault = none := by
  induction ts generalizing w with
  | nil => simp [reads_nil.1 h, clear]
  | cons t ts ih =>
    obtain ⟨start, shown, v, step, rest⟩ := reads_cons.1 h
    obtain ⟨u, us, hu⟩ : ∃ u us, w.ahead = u :: us := by
      cases hw : w.ahead with
      | nil => simp [ahead_eq_nil.1 hw] at start
      | cons u us => exact ⟨u, us, rfl⟩
    obtain ⟨v', step', clear', rest', same⟩ := exists_advanced clear hu
    rw [step] at step'
    obtain rfl : v = v' := by simpa using step'
    obtain ⟨split, same', clear''⟩ := ih rest clear'
    refine ⟨?_, same'.trans same, clear''⟩
    rw [hu, ← (current_of_ahead hu).2, shown, ← rest', split, List.cons_append]

end Lox.Window
