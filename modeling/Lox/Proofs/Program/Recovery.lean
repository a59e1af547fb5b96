import Lox.Program.Recovery
import Lox.Proofs.Rule.Local

/-!
# Skipping a broken declaration

`Skips floor w ts w'` says which tokens are skipped from a window on: those up to the first boundary
or the end. `Recovers` adds the token that is passed in any case where the declaration broke off
before its first token. Both are what `skipFor` and `recover` do unless a fault comes up, and
where they stop follows from the tokens, the token before them and the open braces.
-/

namespace Lox.Window

variable {floor : Nat} {v w v' w' : Window} {ts us : List Token}

/-- Skipping goes over some tokens to the end or to the first boundary. -/
inductive Skips (floor : Nat) : Window → List Token → Window → Prop
  | stop {w : Window} : w.atEnd = true ∨ w.isBoundary floor = true → Skips floor w [] w
  | go {w v w' : Window} {t : Token} {ts : List Token} :
    w.Reads [t] v → w.isBoundary floor = false → Skips floor v ts w' → Skips floor w (t :: ts) w'

/-- What is skipped is read. -/
theorem Skips.reads (h : Skips floor w ts w') : w.Reads ts w' := by
  induction h with
  | stop => exact .refl _
  | go first _ _ ih => exact first.append ih

/-- Skipping ends at the end or at a boundary. -/
theorem Skips.stops (h : Skips floor w ts w') :
    w'.atEnd = true ∨ w'.isBoundary floor = true := by
  induction h with
  | stop stops => exact stops
  | go _ _ _ ih => exact ih

/-- A boundary is told by the open braces, the token before and the token that comes. -/
theorem isBoundary_congr (previous : v.previous = w.previous) (depth : v.depth = w.depth)
    (current : v.current = w.current) : v.isBoundary floor = w.isBoundary floor := by
  simp only [isBoundary, afterEnding, previous, depth, current]

/-- Where the same tokens are skipped, and skipping stops after them, it stops there for the first
time if it does elsewhere. -/
theorem Skips.congr (h : Skips floor v ts v') (reads : w.Reads ts w')
    (previous : w.previous = v.previous) (depth : w.depth = v.depth)
    (stops : w'.atEnd = true ∨ w'.isBoundary floor = true) : Skips floor w ts w' := by
  induction h generalizing w with
  | stop =>
    obtain rfl := reads_nil.1 reads
    exact .stop stops
  | @go v x v' t ts first inside more ih =>
    obtain ⟨y, first', rest⟩ := reads_head.1 reads
    have current : w.current = v.current := by
      rw [(reads_singleton.1 first).2.1, (reads_singleton.1 first').2.1]
    refine .go first' ((isBoundary_congr previous depth current).trans inside) (ih rest ?_ ?_)
    · rw [first'.previous, first.previous]
      rfl
    · rw [first'.depth, first.depth, depth]

/-- Where tokens are skipped, they are skipped by any clock that outlasts them. -/
theorem Skips.skipFor_eq (h : Skips floor w ts w') (clock : List Token)
    (outlasts : w.unread < clock.length) : skipFor floor clock w = (none, w') := by
  induction h generalizing clock with
  | @stop w stops =>
    cases clock with
    | nil => simp at outlasts
    | cons _ clock => rw [skipFor, if_pos (by simpa using stops)]
  | @go w v w' t ts first inside more ih =>
    obtain ⟨start, -, step⟩ := reads_singleton.1 first
    have fewer := first.unread
    cases clock with
    | nil => simp at outlasts
    | cons _ clock =>
      rw [skipFor, start, inside, step]
      simp only [List.length_cons, List.length_nil] at outlasts fewer
      exact ih clock (by omega)

/-- Tokens are skipped as long as the clock outlasts them, or a fault of the feed comes up. -/
theorem skipFor_eq (floor : Nat) (clock : List Token) (w : Window) (h : w.unread < clock.length) :
    (∃ ts w', Skips floor w ts w' ∧ skipFor floor clock w = (none, w')) ∨
      ∃ e w', w.feed.fault = some e ∧ skipFor floor clock w = (some e, w') := by
  -- By induction on the clock, which has an entry for each token that is skipped.
  induction clock generalizing w with
  | nil => simp at h
  | cons _ clock ih =>
    rw [skipFor]
    split
    · rename_i stops
      exact .inl ⟨[], w, .stop (by simpa using stops), rfl⟩
    · rename_i inside
      simp only [Bool.or_eq_true, not_or, Bool.not_eq_true] at inside
      obtain ⟨start, inside⟩ := inside
      split
      · rename_i v step
        have first : w.Reads [w.current] v := reads_singleton.2 ⟨start, rfl, step⟩
        have fewer := first.unread
        simp only [List.length_cons, List.length_nil] at fewer h
        rcases ih v (by omega) with ⟨ts, w', skips, eq⟩ | ⟨e, w', fault, eq⟩
        · exact .inl ⟨_, w', .go first inside skips, eq⟩
        · exact .inr ⟨e, w', first.fault ▸ fault, eq⟩
      · rename_i e v step
        exact .inr ⟨e, v, fault_of_advanced step, rfl⟩

/-- Recovery after the tokens `read` of a declaration skips tokens to a boundary or the end; a
declaration that broke off before its first token loses this token at least. -/
inductive Recovers (floor : Nat) (read : List Token) : Window → List Token → Window → Prop
  | first {w v w' : Window} {t : Token} {ts : List Token} :
    read = [] → w.Reads [t] v → Skips floor v ts w' → Recovers floor read w (t :: ts) w'
  | rest {w w' : Window} {ts : List Token} :
    read ≠ [] → Skips floor w ts w' → Recovers floor read w ts w'

/-- What is skipped in recovery is read. -/
theorem Recovers.reads (h : Recovers floor ts w us w') : w.Reads us w' := by
  cases h with
  | first _ first skips => exact first.append skips.reads
  | rest _ skips => exact skips.reads

/-- Recovery ends at the end or at a boundary. -/
theorem Recovers.stops (h : Recovers floor ts w us w') :
    w'.atEnd = true ∨ w'.isBoundary floor = true := by
  cases h with
  | first _ _ skips => exact skips.stops
  | rest _ skips => exact skips.stops

/-- A token of the declaration is read, or passed in recovery. -/
theorem Recovers.ne_nil (h : Recovers floor ts w us w') : ts ++ us ≠ [] := by
  cases h with
  | first => simp
  | rest some => simp [some]

/-- Where the same tokens were read and are skipped, and recovery stops after them, it stops there
for the first time if it does elsewhere. -/
theorem Recovers.congr {v₀ w₀ : Window} (h : Recovers floor ts v us v') (read : v₀.Reads ts v)
    (read' : w₀.Reads ts w) (depth : w₀.depth = v₀.depth) (reads : w.Reads us w')
    (stops : w'.atEnd = true ∨ w'.isBoundary floor = true) : Recovers floor ts w us w' := by
  have depth' : w.depth = v.depth := by rw [read.depth, read'.depth, depth]
  cases h with
  | first none first skips =>
    obtain ⟨y, first', rest⟩ := reads_head.1 reads
    refine .first none first' (skips.congr rest ?_ ?_ stops)
    · rw [first'.previous, first.previous]
      rfl
    · rw [first'.depth, first.depth, depth']
  | rest some skips =>
    refine .rest some (skips.congr reads ?_ depth' stops)
    obtain ⟨t, last⟩ : ∃ t, ts.getLast? = .some t := by
      cases last : ts.getLast? with
      | none => exact absurd (List.getLast?_eq_none_iff.1 last) some
      | some t => exact ⟨t, rfl⟩
    rw [read.previous, read'.previous, last]
    rfl

/-- Where recovery skips tokens, it is what `recover` does. -/
theorem Recovers.recover_eq {w₀ : Window} (h : Recovers floor ts w us w') (read : w₀.Reads ts w) :
    w.recover w₀.position floor = (none, w') := by
  have position := read.position
  rw [recover]
  cases h with
  | first none first skips =>
    obtain ⟨-, -, step⟩ := reads_singleton.1 first
    rw [none, List.length_nil, Nat.add_zero] at position
    rw [if_pos position, step]
    exact skips.skipFor_eq _ (unread_lt_clock _)
  | rest some skips =>
    have := List.length_pos_iff.2 some
    rw [if_neg (by omega)]
    exact skips.skipFor_eq _ (unread_lt_clock _)

/-- Recovery skips tokens, or a fault of the feed comes up. -/
theorem recover_eq {w₀ : Window} (read : w₀.Reads ts w) (start : w₀.atEnd = false) (floor : Nat) :
    (∃ us w', Recovers floor ts w us w' ∧ w.recover w₀.position floor = (none, w')) ∨
      ∃ e w', w.feed.fault = some e ∧ w.recover w₀.position floor = (some e, w') := by
  have position := read.position
  rw [recover]
  -- If the declaration has read nothing, then recovery reads a token first, so that it makes
  -- progress.
  cases ts with
  | nil =>
    obtain rfl := reads_nil.1 read
    rw [if_pos rfl]
    split
    · rename_i v step
      have first : w.Reads [w.current] v := reads_singleton.2 ⟨start, rfl, step⟩
      rcases skipFor_eq floor v.clock v v.unread_lt_clock with ⟨us, w', skips, eq⟩ | ⟨e, w', met, eq⟩
      · exact .inl ⟨_, w', .first rfl first skips, eq⟩
      · exact .inr ⟨e, w', first.fault ▸ met, eq⟩
    · rename_i e v step
      exact .inr ⟨e, v, fault_of_advanced step, rfl⟩
  | cons t ts =>
    rw [List.length_cons] at position
    rw [if_neg (by omega)]
    rcases skipFor_eq floor w.clock w w.unread_lt_clock with ⟨us, w', skips, eq⟩ | ⟨e, w', met, eq⟩
    · exact .inl ⟨us, w', .rest (List.cons_ne_nil t ts) skips, eq⟩
    · exact .inr ⟨e, w', met, eq⟩

end Lox.Window
