import Lox.Program.Run
import Lox.Proofs.Program.Recovery
import Lox.Proofs.Reading.Law

/-!
# Steps and runs

A step yields a declaration, or recovers from an error in one, or meets the fault of the feed
(`step_outcomes`); where the feed has no fault there are the first two cases only (`step_cases`). In
both of them it reads a token, so that the clock of a run cannot be told from the outside: a run is
a step and then the run from the window after it (`run_of_yielded`, `run_of_skipped`).

`Follows` is a run without a clock. Where the feed has no fault, runs are such (`follows_run`), and
what holds of a run is proved by induction on it.
-/

namespace Lox

variable {limit : Int} {w : Window}

/-- What a step does in front of a token: it reads a declaration, or it breaks off in one and skips
the rest, or the fault of the feed comes up, either in a declaration or behind an error in one. -/
theorem step_outcomes (limit : Int) (start : w.atEnd = false) :
    (∃ s ts after, ts ≠ [] ∧ w.Reads ts after ∧ declaration limit w = .ok s after ∧
      step limit w = .yielded s after) ∨
    (∃ e ts failed us after, w.Reads ts failed ∧ declaration limit w = .error (.broken e) failed ∧
      Window.Recovers w.depth ts failed us after ∧ step limit w = .skipped e failed after) ∨
    ∃ skipping e last, w.feed.fault = some e ∧ step limit w = .interrupted skipping e last ∧
      ∀ e' ∈ skipping, ∃ ts failed, w.Reads ts failed ∧
        declaration limit w = .error (.broken e') failed := by
  have atWindow : Rule.LocalAt (declaration limit) w := Rule.local_declaration limit limit.toNat w
  -- A declaration is local, so it ends behind some tokens, by success, by an error or by a fault.
  cases atWindow with
  | @ok s after ts ok reads =>
    obtain ⟨us, reads', phrase⟩ := (Rule.recognizes_declaration limit limit.toNat).sound ok
    obtain ⟨t, us, rfl, -⟩ := Grammar.begins_declaration limit.toNat phrase
    refine .inl ⟨s, t :: us, after, List.cons_ne_nil t us, reads', ok, ?_⟩
    rw [step, start, ok]
    rfl
  | @broken e failed ts broken reads =>
    -- Recovery ends where it may, or a fault comes up on the way.
    rcases Window.recover_eq reads start w.depth with
      ⟨us, after, recovers, eq⟩ | ⟨fault, last, met, eq⟩
    · refine .inr (.inl ⟨e, ts, failed, us, after, reads, broken, recovers, ?_⟩)
      rw [step, start, broken]
      simp only [eq, Bool.false_eq_true, ↓reduceIte]
    · refine .inr (.inr ⟨some e, fault, last, reads.fault ▸ met, ?_, fun e' mem => ?_⟩)
      · rw [step, start, broken]
        simp only [eq, Bool.false_eq_true, ↓reduceIte]
      · obtain rfl := Option.some.inj mem
        exact ⟨ts, failed, reads, broken⟩
  | @fault e _ last _ met reads faulty =>
    refine .inr (.inr ⟨none, e, last, reads.fault_of_advanced faulty, ?_, fun e' mem => ?_⟩)
    · rw [step, start, met]
      rfl
    · cases mem

/-- What a step does in front of a token, where the feed has no fault: it reads a declaration, or
it breaks off in one and skips the rest. -/
theorem step_cases (limit : Int) (clear : w.feed.fault = none) (start : w.atEnd = false) :
    (∃ s ts after, ts ≠ [] ∧ w.Reads ts after ∧ declaration limit w = .ok s after ∧
      step limit w = .yielded s after) ∨
    ∃ e ts failed us after, w.Reads ts failed ∧ declaration limit w = .error (.broken e) failed ∧
      Window.Recovers w.depth ts failed us after ∧ step limit w = .skipped e failed after := by
  rcases step_outcomes limit start with yielded | skipped | ⟨_, _, _, fault, -⟩
  · exact .inl yielded
  · exact .inr skipped
  · rw [clear] at fault
    cases fault

/-- At the end there is no step. -/
theorem step_of_atEnd (limit : Int) (h : w.atEnd = true) : step limit w = .finished := by
  rw [step, if_pos h]

/-- A declaration that is read is yielded. -/
theorem step_of_ok {s : Stmt} {after : Window} (start : w.atEnd = false)
    (h : declaration limit w = .ok s after) : step limit w = .yielded s after := by
  rw [step, start, h]
  rfl

/-- A declaration that breaks off is skipped up to where recovery ends. -/
theorem step_of_broken {e : SyntaxError} {failed after : Window} {ts us : List Token}
    (start : w.atEnd = false) (reads : w.Reads ts failed)
    (h : declaration limit w = .error (.broken e) failed)
    (recovers : Window.Recovers w.depth ts failed us after) :
    step limit w = .skipped e failed after := by
  rw [step, start, h]
  simp only [recovers.recover_eq reads, Bool.false_eq_true, ↓reduceIte]

/-- A declaration that is read from one window is yielded from another one, if the same tokens can
be read there up to the same token. -/
theorem step_of_reads {v v' w' : Window} {s : Stmt} {ts : List Token} (some : ts ≠ [])
    (ok : declaration limit v = .ok s v') (reads : v.Reads ts v') (reads' : w.Reads ts w')
    (same : w'.current = v'.current) : step limit w = .yielded s w' :=
  step_of_ok (reads'.atEnd_eq_false some)
    ((Rule.local_declaration limit limit.toNat).ok_of_reads ok reads reads' same)

/-- A declaration that is skipped from one window is skipped from another one with as many open
braces, if the same tokens can be read there up to the same token and recovery can end behind the
same ones. -/
theorem step_of_recovers {v v' w' failed failed' : Window} {e : SyntaxError} {ts us : List Token}
    (broken : declaration limit v = .error (.broken e) failed) (reads : v.Reads ts failed)
    (recovers : Window.Recovers v.depth ts failed us v') (reads' : w.Reads ts failed')
    (same : failed'.current = failed.current) (depth : w.depth = v.depth)
    (skipped : failed'.Reads us w')
    (stops : w'.atEnd = true ∨ w'.isBoundary v.depth = true) :
    step limit w = .skipped e failed' w' := by
  have start := (reads'.append skipped).atEnd_eq_false recovers.ne_nil
  have broken' := (Rule.local_declaration limit limit.toNat).broken_of_reads broken reads reads'
    same
  have recovers' := recovers.congr reads reads' depth skipped stops
  rw [← depth] at recovers'
  exact step_of_broken start reads' broken' recovers'

/-- Clocks that outlast the tokens drive a run alike. -/
theorem runFor_congr (limit : Int) (one two : List Token) (w : Window)
    (hone : w.unread < one.length) (htwo : w.unread < two.length) :
    runFor limit one w = runFor limit two w := by
  -- Both clocks lose an entry with each step, and each step but the last reads a token.
  induction one generalizing two w with
  | nil => simp at hone
  | cons _ one ih =>
    cases two with
    | nil => simp at htwo
    | cons _ two =>
      rw [List.length_cons] at hone htwo
      cases start : w.atEnd with
      | true => rw [runFor, runFor, step_of_atEnd limit start]
      | false =>
        rcases step_outcomes limit start with
          ⟨s, ts, after, some, reads, -, eq⟩ | ⟨e, ts, failed, us, after, reads, -, recovers, eq⟩ |
          ⟨skipping, e, last, -, eq, -⟩
        · have fewer := reads.unread_lt some
          rw [runFor, runFor, eq]
          simp only [ih two after (by omega) (by omega)]
        · have fewer := (reads.append recovers.reads).unread_lt recovers.ne_nil
          rw [runFor, runFor, eq]
          simp only [ih two after (by omega) (by omega)]
        · rw [runFor, runFor, eq]

/-- What is left of a clock after a step drives a run as a clock of its own does. -/
theorem runFor_rest (limit : Int) {after : Window} {ts : List Token} (reads : w.Reads ts after)
    (some : ts ≠ []) :
    runFor limit (w.current :: w.next :: w.feed.tokens) after = run limit after := by
  have fewer := reads.unread_lt some
  have outlasts := w.unread_lt_clock
  rw [Window.clock, List.length_cons] at outlasts
  exact runFor_congr limit _ _ after (by omega) after.unread_lt_clock

/-- A feed that a window opens on is read from this window. -/
theorem run_of_open {f : Feed} (opened : Window.open? f = .ok w) (limit : Int) :
    f.run limit = .ok (run limit w) := by
  rw [Feed.run, opened]
  rfl

/-- At the end a run is finished. -/
theorem run_of_atEnd (limit : Int) (h : w.atEnd = true) : run limit w = .finished w := by
  rw [run, Window.clock, runFor, step_of_atEnd limit h]

/-- A declaration that is yielded is the first of a run. -/
theorem run_of_yielded {s : Stmt} {after : Window} {ts : List Token} (reads : w.Reads ts after)
    (some : ts ≠ []) (h : step limit w = .yielded s after) :
    run limit w = .yielded s after (run limit after) := by
  rw [run, Window.clock, runFor, h]
  simp only [runFor_rest limit reads some]

/-- A declaration that is skipped is the first of a run. -/
theorem run_of_skipped {e : SyntaxError} {failed after : Window} {ts : List Token}
    (reads : w.Reads ts after) (some : ts ≠ []) (h : step limit w = .skipped e failed after) :
    run limit w = .skipped e failed after (run limit after) := by
  rw [run, Window.clock, runFor, h]
  simp only [runFor_rest limit reads some]

/-- A fault that comes up ends a run. -/
theorem run_of_interrupted {skipping : Option SyntaxError} {e : LexicalError} {last : Window}
    (h : step limit w = .interrupted skipping e last) :
    run limit w = .interrupted skipping e last := by
  rw [run, Window.clock, runFor, h]

/-- Where the feed has no fault a run is finished, or it starts with a declaration that is read or
skipped and goes on after it. -/
theorem run_cases (limit : Int) (clear : w.feed.fault = none) :
    (w.atEnd = true ∧ run limit w = .finished w) ∨
    (∃ s ts after, ts ≠ [] ∧ w.Reads ts after ∧ declaration limit w = .ok s after ∧
      run limit w = .yielded s after (run limit after)) ∨
    ∃ e ts failed us after, w.Reads ts failed ∧ declaration limit w = .error (.broken e) failed ∧
      Window.Recovers w.depth ts failed us after ∧
      run limit w = .skipped e failed after (run limit after) := by
  cases start : w.atEnd with
  | true => exact .inl ⟨rfl, run_of_atEnd limit start⟩
  | false =>
    rcases step_cases limit clear start with
      ⟨s, ts, after, some, reads, ok, eq⟩ | ⟨e, ts, failed, us, after, reads, broken, recovers, eq⟩
    · exact .inr (.inl ⟨s, ts, after, some, reads, ok, run_of_yielded reads some eq⟩)
    · exact .inr (.inr ⟨e, ts, failed, us, after, reads, broken, recovers,
        run_of_skipped (reads.append recovers.reads) recovers.ne_nil eq⟩)

/-- The steps of reading a program from a window on, without a clock: a declaration is read, or it
is broken and the rest of it is skipped, until the end comes. -/
inductive Follows (limit : Int) : Window → Run → Prop
  /-- At the end the run is finished. -/
  | finished {w : Window} : w.atEnd = true → Follows limit w (.finished w)
  /-- A declaration is read. -/
  | yielded {w after : Window} {s : Stmt} {ts : List Token} {rest : Run} :
    ts ≠ [] → w.Reads ts after → declaration limit w = .ok s after → Follows limit after rest →
    Follows limit w (.yielded s after rest)
  /-- A declaration is broken, and more tokens are skipped. -/
  | skipped {w failed after : Window} {e : SyntaxError} {ts us : List Token} {rest : Run} :
    w.Reads ts failed → declaration limit w = .error (.broken e) failed →
    Window.Recovers w.depth ts failed us after → Follows limit after rest →
    Follows limit w (.skipped e failed after rest)

/-- Where the feed has no fault a run comes to an end. -/
theorem follows_run (limit : Int) (clear : w.feed.fault = none) :
    Follows limit w (run limit w) := by
  induction n : w.unread using Nat.strongRecOn generalizing w with
  | ind n ih =>
    rcases run_cases limit clear with
      ⟨atEnd, eq⟩ | ⟨s, ts, after, some, reads, ok, eq⟩ |
      ⟨e, ts, failed, us, after, reads, broken, recovers, eq⟩
    · rw [eq]
      exact .finished atEnd
    · rw [eq]
      exact .yielded some reads ok
        (ih _ (n ▸ reads.unread_lt some) (reads.fault ▸ clear) rfl)
    · have both := reads.append recovers.reads
      rw [eq]
      exact .skipped reads broken recovers
        (ih _ (n ▸ both.unread_lt recovers.ne_nil) (both.fault ▸ clear) rfl)

/-- No fault ends a run that follows from declarations that are read or skipped. -/
theorem Follows.fault {r : Run} (h : Follows limit w r) : r.fault = none := by
  induction h with
  | finished => rfl
  | yielded _ _ _ _ ih => exact ih
  | skipped _ _ _ _ ih => exact ih

/-- Where the feed has no fault none ends a run. -/
theorem fault_run (limit : Int) (clear : w.feed.fault = none) : (run limit w).fault = none :=
  (follows_run limit clear).fault

end Lox
