import Mathlib.Order.Bounds.Defs
import Lox.Proofs.Grammar.Balance
import Lox.Proofs.Program.Step
import Lox.Proofs.Token.Braces

/-!
# Where declarations start

Declarations at the top of a program start outside all braces, and after a broken one reading goes
on at the first place where it safely can (`run_resumes`). Such a place (`IsSafe`) is told from the
tokens alone: no brace is open there, and a declaration ends before it or one starts after it.

The invariant of a run is that no brace is open (`Window.Behind` says what a window counts, in terms
of the tokens behind it). A declaration that is read keeps it because phrases close their braces,
and recovery restores it because it only stops where as few braces are open as at the start.
-/

namespace Lox

/-- The steps of a run from a window on, each with the window that it starts from. -/
def Run.steps (w : Window) : Run → List (Window × Step)
  | .finished _ => []
  | .yielded s after rest => (w, .yielded s after) :: rest.steps after
  | .skipped e failed after rest => (w, .skipped e failed after) :: rest.steps after
  | .interrupted skipping e last => [(w, .interrupted skipping e last)]

/-- Whether reading can go on at a place in a row of tokens, after a broken declaration. The place
is the end, or no brace is open and the token before it is a semicolon, or a closing brace that
`else` does not follow, or the token after it is a keyword that starts a declaration. -/
def IsSafe (ts : List Token) (b : Nat) : Prop :=
  b = ts.length ∨
    openBraces (ts.take b) = 0 ∧
      ((∃ t ∈ (ts.take b).getLast?, t.type = .semicolon) ∨
        ((∃ t ∈ (ts.take b).getLast?, t.type = .rightBrace) ∧ ∀ t ∈ ts[b]?, t.type ≠ .elseKw) ∨
        ∃ t ∈ ts[b]?, t.type ∈
          [TokenType.classKw, .funKw, .varKw, .forKw, .ifKw, .whileKw, .printKw, .returnKw])

/-- How a step from a window leaves the braces and where it goes on, in a row of tokens: a statement
is yielded where no brace is open, and after an error reading goes on at the first safe place that
is not before the error and is behind the first token of the declaration. -/
def Step.Resumes (ts : List Token) (w : Window) : Step → Prop
  | .yielded _ after => after.depth = 0
  | .skipped _ failed after =>
    IsLeast {b | max failed.position (w.position + 1) ≤ b ∧ IsSafe ts b} after.position
  | .finished | .interrupted _ _ _ => False

namespace Window

variable {all read ts us : List Token} {v w w' failed after : Window}

/-- A window over a row of tokens stands behind some of them, which are what it counts. -/
structure Behind (all read : List Token) (w : Window) : Prop where
  /-- No fault comes up. -/
  clear : w.feed.fault = none
  /-- The other tokens are ahead. -/
  split : read ++ w.ahead = all
  /-- How many tokens were read. -/
  position : w.position = read.length
  /-- The last of them. -/
  previous : w.previous = read.getLast?
  /-- The braces that they leave open. -/
  depth : w.depth = openBraces read

/-- Reading on puts the window behind the tokens that are read. -/
theorem Behind.reads (h : Behind all read w) (reads : w.Reads ts w') :
    Behind all (read ++ ts) w' where
  clear := (reads.ahead h.clear).2.2
  split := by rw [List.append_assoc, ← (reads.ahead h.clear).1, h.split]
  position := by rw [reads.position, h.position, List.length_append]
  previous := by rw [reads.previous, h.previous, List.getLast?_append]
  depth := by rw [reads.depth, h.depth, openBraces, openBraces, List.foldl_append]

/-- A window shows the first token ahead unless it is at the end. -/
theorem head?_ahead (start : w.atEnd = false) : w.ahead.head? = some w.current := by
  cases shown : w.ahead with
  | nil =>
    rw [ahead_eq_nil.1 shown] at start
    cases start
  | cons t ts => rw [(current_of_ahead shown).2, List.head?_cons]

/-- Behind the tokens that were read comes the first one ahead. -/
theorem Behind.getElem?_all (h : Behind all read w) : all[read.length]? = w.ahead.head? := by
  rw [← h.split, List.getElem?_append_right (Nat.le_refl _), Nat.sub_self,
    ← List.head?_eq_getElem?]

/-- A window is at a safe place just if recovery would stop there. -/
theorem Behind.isSafe_iff (h : Behind all read w) :
    IsSafe all read.length ↔ w.atEnd = true ∨ w.isBoundary 0 = true := by
  have atEnd : read.length = all.length ↔ w.atEnd = true := by
    rw [← h.split, ← ahead_eq_nil, List.length_append, ← List.length_eq_zero_iff]
    omega
  have before : all.take read.length = read := by rw [← h.split, List.take_left]
  rw [IsSafe, atEnd, before, h.getElem?_all, ← h.depth, ← h.previous]
  refine or_congr_right' fun inside => ?_
  have start : w.atEnd = false := by simpa using inside
  -- In front of a token both sides ask the same of the last token and of this one.
  rw [head?_ahead start, isBoundary, afterEnding]
  cases w.previous <;> simp [starters, or_assoc]

/-- Skipping ends at the first safe place. -/
theorem Skips.isLeast (h : Skips 0 w ts w') (behind : Behind all read w) :
    IsLeast {b | read.length ≤ b ∧ IsSafe all b} w'.position := by
  induction h generalizing read with
  | stop stops =>
    rw [behind.position]
    exact ⟨⟨Nat.le_refl _, behind.isSafe_iff.2 stops⟩, fun b h => h.1⟩
  | go first inside more ih =>
    have start := (reads_singleton.1 first).1
    obtain ⟨safe, least⟩ := ih (behind.reads first)
    rw [List.length_append, List.length_singleton] at safe least
    refine ⟨⟨Nat.le_of_succ_le safe.1, safe.2⟩, fun b h => ?_⟩
    -- The place of the token that was skipped is not safe, so all safe ones are behind the token.
    have other : b ≠ read.length := by
      rintro rfl
      simpa [start, inside] using behind.isSafe_iff.1 h.2
    exact least ⟨Nat.lt_of_le_of_ne h.1 other.symm, h.2⟩

/-- Recovery ends at the first safe place that is not before the error and is behind the first token
of the declaration. -/
theorem Recovers.isLeast (h : Recovers 0 ts failed us after) (behind : Behind all read w)
    (reads : w.Reads ts failed) :
    IsLeast {b | max failed.position (w.position + 1) ≤ b ∧ IsSafe all b} after.position := by
  have behind' := behind.reads reads
  have position := reads.position
  -- Skipping starts behind the first token of the declaration, or at the error if that is further.
  cases h with
  | @first v _ t _ none first skips =>
    have last := (behind'.reads first).position
    have moved := first.position
    have low : max failed.position (w.position + 1) = (read ++ ts ++ [t]).length := by
      rw [none, List.length_nil] at position
      rw [List.length_singleton] at moved
      omega
    rw [low]
    exact skips.isLeast (behind'.reads first)
  | rest some skips =>
    have low : max failed.position (w.position + 1) = (read ++ ts).length := by
      have := List.length_pos_iff.2 some
      rw [← behind'.position]
      omega
    rw [low]
    exact skips.isLeast behind'

end Window

variable {all read : List Token} {w : Window} {st : Step}

/-- What is said of a step, from what is known of the window that it starts from. -/
theorem resumes_of_step {limit : Int} (behind : w.Behind all read) (closed : w.depth = 0)
    (start : w.atEnd = false) (eq : step limit w = st) (resumes : st.Resumes all w) :
    step limit w = st ∧ all[w.position]? = some w.current ∧ w.depth = 0 ∧
      openBraces (all.take w.position) = 0 ∧ st.Resumes all w := by
  refine ⟨eq, ?_, closed, ?_, resumes⟩
  · rw [behind.position, behind.getElem?_all, Window.head?_ahead start]
  · rw [← behind.split, behind.position, List.take_left, ← behind.depth, closed]

/-- Where no brace is open at the start of a run, none is open where one of its steps starts. -/
theorem resumes_of_steps (limit : Int) (behind : w.Behind all read)
    (closed : w.atEnd = false → w.depth = 0) :
    ∀ v st, (v, st) ∈ (run limit w).steps w →
      step limit v = st ∧ all[v.position]? = some v.current ∧ v.depth = 0 ∧
        openBraces (all.take v.position) = 0 ∧ st.Resumes all v := by
  have follows := follows_run limit behind.clear
  generalize run limit w = r at follows ⊢
  induction follows generalizing read with
  | finished => exact fun v st mem => absurd mem List.not_mem_nil
  | @yielded w after s ts r some reads ok more ih =>
    have start := reads.atEnd_eq_false some
    -- The phrase that was read closes the braces that it opens.
    obtain ⟨ts', reads', phrase⟩ := (Rule.recognizes_declaration limit limit.toNat).sound ok
    have closed' : after.depth = 0 := by
      rw [reads'.depth, Grammar.closed_declaration _ phrase, closed start]
    intro v st mem
    rcases List.mem_cons.1 mem with same | mem
    · obtain ⟨rfl, rfl⟩ := Prod.mk.inj same
      exact resumes_of_step behind (closed start) start (step_of_ok start ok) closed'
    · exact ih (behind.reads reads) (fun _ => closed') v st mem
  | @skipped w failed after e ts us r reads broken recovers more ih =>
    have both := reads.append recovers.reads
    have start := both.atEnd_eq_false recovers.ne_nil
    have eq := step_of_broken start reads broken recovers
    rw [closed start] at recovers
    intro v st mem
    rcases List.mem_cons.1 mem with same | mem
    · obtain ⟨rfl, rfl⟩ := Prod.mk.inj same
      exact resumes_of_step behind (closed start) start eq (recovers.isLeast behind reads)
    · -- Recovery stops where no brace is open, unless it comes to the end.
      have closed' : after.atEnd = false → after.depth = 0 := fun inside => by
        have stops := recovers.stops
        simp only [inside, Window.isBoundary, Bool.false_eq_true, false_or, Bool.and_eq_true,
          decide_eq_true_eq] at stops
        exact Nat.le_zero.1 stops.1
      exact ih (behind.reads both) closed' v st mem

/-- Take any limit and any tokens, and read them as a program. Each declaration starts where no
brace is open: the window counts none, and among the tokens before the declaration every opening
brace is closed. If the declaration is yielded, no brace is open behind it either. If it is skipped,
the next one starts at the first safe place. -/
theorem run_resumes (limit : Int) (ts : List Token) :
    ∃ w, Window.open? (.ofList ts) = .ok w ∧ (Feed.ofList ts).run limit = .ok (run limit w) ∧
      ∀ v st, (v, st) ∈ (run limit w).steps w →
        step limit v = st ∧ (ts.takeWhile (!·.isEof))[v.position]? = some v.current ∧ v.depth = 0 ∧
          ¬ LeavesOpen ((ts.takeWhile (!·.isEof)).take v.position) ∧
          st.Resumes (ts.takeWhile (!·.isEof)) v := by
  obtain ⟨w, opened, clear, ahead, -, previous, position, depth⟩ := Window.exists_open ts
  have behind : w.Behind (ts.takeWhile (!·.isEof)) [] := ⟨clear, ahead, position, previous, depth⟩
  refine ⟨w, opened, run_of_open opened limit, fun v st mem => ?_⟩
  obtain ⟨eq, shown, closed, braces, resumes⟩ :=
    resumes_of_steps limit behind (fun _ => depth) v st mem
  exact ⟨eq, shown, closed, openBraces_eq_zero_iff.1 braces, resumes⟩

end Lox
