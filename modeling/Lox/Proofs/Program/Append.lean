import Lox.Proofs.Grammar.Balance
import Lox.Proofs.Program.Step

/-!
# Programs after each other

A broken declaration does not change what is read before or after it. More precisely, the run over
two rows of tokens is the run over the first and then the one over the second (`run_append`), if the
first row ends where a declaration does and the second does not start with `else`, which could go on
with it.

The run over both rows is followed next to the run over the first one (`Extends`). Steps are the
same as long as the token that comes is the same, since rules and recovery look no further. Only the
last step meets another token there. A declaration that was read is read up to the same place,
because only an `else` goes on with it; and skipping, which ended at the end of the first row, ends
there all the same, because a semicolon or a brace was read and no brace is open. What follows
starts without open braces, and so it is read as if nothing had been there before.
-/

namespace Lox

/-- The last step of a run, if it has one. -/
def Run.lastStep : Run → Option Step
  | .finished _ => none
  | .yielded s after rest => some (rest.lastStep.getD (.yielded s after))
  | .skipped e failed after rest => some (rest.lastStep.getD (.skipped e failed after))
  | .interrupted skipping e last => some (.interrupted skipping e last)

/-- The last step of a run is the last one also after a declaration. -/
theorem Run.mem_lastStep_yielded {r : Run} {step : Step} (h : step ∈ r.lastStep) (s : Stmt)
    (after : Window) : step ∈ (Run.yielded s after r).lastStep := by
  rw [Run.lastStep, Option.mem_def.1 h]
  rfl

/-- The last step of a run is the last one also after a recovery. -/
theorem Run.mem_lastStep_skipped {r : Run} {step : Step} (h : step ∈ r.lastStep) (e : SyntaxError)
    (failed after : Window) : step ∈ (Run.skipped e failed after r).lastStep := by
  rw [Run.lastStep, Option.mem_def.1 h]
  rfl

/-- Whether a step to the end of a row of tokens ends where a declaration does: it yielded one, or
it found an error before the end and then a semicolon or a closing brace is the last token of the
row and no brace is open. -/
def Step.Completes (last : Option Token) : Step → Prop
  | .yielded _ _ => True
  | .skipped _ failed after =>
    failed.atEnd = false ∧ after.depth = 0 ∧
      ∃ t ∈ last, t.type = .semicolon ∨ t.type = .rightBrace
  | .finished | .interrupted _ _ _ => False

/-- A window shows what another one shows and some more tokens behind it, and has as many open
braces. -/
structure Extends (more : List Token) (v w : Window) : Prop where
  /-- No fault comes up. -/
  clear : v.feed.fault = none
  /-- No fault comes up in the longer one. -/
  clear' : w.feed.fault = none
  /-- The tokens to come. -/
  ahead : w.ahead = v.ahead ++ more
  /-- The same mark of the end comes after them. -/
  ending : w.ending = v.ending
  /-- The open braces. -/
  depth : w.depth = v.depth

namespace Extends

variable {limit : Int} {more ts us : List Token} {v v' w failed : Window}

/-- What is read from one window is read from the other. -/
theorem reads (h : Extends more v w) (reads : v.Reads ts v') :
    ∃ w', w.Reads ts w' ∧ Extends more v' w' := by
  obtain ⟨split, same, clear⟩ := reads.ahead h.clear
  have ahead := h.ahead
  rw [split, List.append_assoc] at ahead
  obtain ⟨w', reads', clear', ahead', same'⟩ := Window.exists_reads h.clear' ahead
  refine ⟨w', reads', clear, clear', ahead', ?_, ?_⟩
  · rw [same', h.ending, same]
  · rw [reads'.depth, reads.depth, h.depth]

/-- Both windows show the same token, unless one is at the end and the other goes on. -/
theorem current (h : Extends more v w) (same : v.atEnd = false ∨ more = []) :
    w.current = v.current := by
  have ahead := h.ahead
  cases shown : v.ahead with
  | cons t ts =>
    rw [shown, List.cons_append] at ahead
    rw [(Window.current_of_ahead ahead).2, (Window.current_of_ahead shown).2]
  | nil =>
    have atEnd := Window.ahead_eq_nil.1 shown
    obtain none : more = [] := same.resolve_left (by simp [atEnd])
    rw [shown, none, List.append_nil] at ahead
    rw [Window.current_of_atEnd (Window.ahead_eq_nil.1 ahead), Window.current_of_atEnd atEnd,
      h.ending]

/-- Behind the end of the one comes what the other goes on with, or the end. -/
theorem current_ne_else (h : Extends more v w) (apart : ∀ t ∈ more.head?, t.type ≠ .elseKw)
    (atEnd : v.atEnd = true) : w.atEnd = true ∨ w.current.type ≠ .elseKw := by
  have ahead := h.ahead
  rw [Window.ahead_eq_nil.2 atEnd, List.nil_append] at ahead
  cases more with
  | nil => exact .inl (Window.ahead_eq_nil.1 ahead)
  | cons t more =>
    rw [(Window.current_of_ahead ahead).2]
    exact .inr (apart t rfl)

/-- A declaration that is read from the one is read from the other. -/
theorem run_yielded {s : Stmt} (h : Extends more v w) (apart : ∀ t ∈ more.head?, t.type ≠ .elseKw)
    (some : ts ≠ []) (reads : v.Reads ts v') (ok : declaration limit v = .ok s v') :
    ∃ w', Extends more v' w' ∧ run limit w = .yielded s w' (run limit w') := by
  obtain ⟨w', reads', h'⟩ := h.reads reads
  have ok' : declaration limit w = .ok s w' := by
    -- Where the one window goes on, both show the same token behind the declaration, and the rule
    -- cannot tell them apart. At its end the other one may show a new token, and the declaration is
    -- read again from the grammar: all that could go on with it is an `else`.
    cases atEnd : v'.atEnd with
    | false =>
      exact (Rule.local_declaration limit limit.toNat).ok_of_reads ok reads reads'
        (h'.current (.inl atEnd))
    | true =>
      obtain ⟨us, reads'', phrase⟩ := (Rule.recognizes_declaration limit limit.toNat).sound ok
      rw [← reads.tokens_eq reads''] at phrase
      refine (Rule.recognizes_declaration limit limit.toNat).complete phrase reads' ?_
      rcases h'.current_ne_else apart atEnd with last | other
      · have shown : w'.current.type = .eof := by simpa [Window.atEnd, Token.isEof] using last
        rw [shown]
        decide
      · simpa using other
  exact ⟨w', h', run_of_yielded reads' some (step_of_ok (reads'.atEnd_eq_false some) ok')⟩

/-- A declaration that is skipped from the one is skipped from the other, if the error was found in
front of the same token and recovery ends after the same tokens. -/
theorem run_skipped {e : SyntaxError} (h : Extends more v w) (reads : v.Reads ts failed)
    (broken : declaration limit v = .error (.broken e) failed)
    (recovers : Window.Recovers v.depth ts failed us v') (same : failed.atEnd = false ∨ more = [])
    (stops : ∀ w', Extends more v' w' → w'.previous = v'.previous →
      w'.atEnd = true ∨ w'.isBoundary v.depth = true) :
    ∃ failed' w', Extends more v' w' ∧ run limit w = .skipped e failed' w' (run limit w') := by
  obtain ⟨failed', reads', h₁⟩ := h.reads reads
  obtain ⟨w', skipped, h₂⟩ := h₁.reads recovers.reads
  have both := reads.append recovers.reads
  have both' := reads'.append skipped
  obtain ⟨t, us', last⟩ := List.exists_cons_of_ne_nil recovers.ne_nil
  have previous : w'.previous = v'.previous := by
    rw [both.previous, both'.previous, last, List.getLast?_cons]
    rfl
  exact ⟨failed', w', h₂, run_of_skipped both' recovers.ne_nil
    (step_of_recovers broken reads recovers reads' (h₁.current same) h.depth skipped
      (stops w' h₂ previous))⟩

/-- What is read from a window does not follow from what was read before it, but for the open
braces. -/
theorem run_congr (limit : Int) (h : Extends [] v w) :
    (run limit w).statements = (run limit v).statements ∧
      (run limit w).errors = (run limit v).errors := by
  have follows := follows_run limit h.clear
  generalize run limit v = r at follows ⊢
  -- By induction on the steps of the one run: each step is made by the other run as well.
  induction follows generalizing w with
  | finished atEnd =>
    have shown := h.ahead
    rw [Window.ahead_eq_nil.2 atEnd, List.append_nil] at shown
    rw [run_of_atEnd limit (Window.ahead_eq_nil.1 shown)]
    exact ⟨rfl, rfl⟩
  | yielded some reads ok _ ih =>
    obtain ⟨w', h', eq⟩ := h.run_yielded (by simp) some reads ok
    obtain ⟨statements, errors⟩ := ih h'
    rw [eq, Run.statements, Run.statements, Run.errors, Run.errors, statements, errors]
    exact ⟨rfl, rfl⟩
  | skipped reads broken recovers _ ih =>
    obtain ⟨failed', w', h', eq⟩ := h.run_skipped reads broken recovers (.inr rfl) (by
      intro w' h' previous
      have current := h'.current (.inr rfl)
      rw [Window.atEnd, current, Window.isBoundary_congr previous h'.depth current]
      exact recovers.stops)
    obtain ⟨statements, errors⟩ := ih h'
    rw [eq, Run.statements, Run.statements, Run.errors, Run.errors, statements, errors]
    exact ⟨rfl, rfl⟩

/-- Recovery from outside all braces leaves no brace open, and it ends at the same place for the
other window: at a boundary that is not the end, or at the end of a row that a semicolon or a
closing brace ends. -/
theorem recovery {e : SyntaxError} {last : Option Token}
    (apart : ∀ t ∈ more.head?, t.type ≠ .elseKw) (depth : v.depth = 0)
    (recovers : Window.Recovers v.depth ts failed us v')
    (completes : v'.atEnd = true → Step.Completes last (.skipped e failed v'))
    (final : v'.ahead.getLast?.or v'.previous = last) :
    failed.atEnd = false ∧ v'.depth = 0 ∧ ∀ w', Extends more v' w' → w'.previous = v'.previous →
      w'.atEnd = true ∨ w'.isBoundary v.depth = true := by
  -- A boundary in front of the end is seen by both windows. At the end it has to be a boundary also
  -- with another token behind it, and `completes` says so.
  cases atEnd : v'.atEnd with
  | false =>
    have boundary : v'.isBoundary v.depth = true := by simpa [atEnd] using recovers.stops
    refine ⟨?_, ?_, fun w' h' previous => .inr ?_⟩
    · cases before : failed.atEnd with
      | false => rfl
      | true =>
        obtain rfl := recovers.reads.eq_nil before
        rw [Window.reads_nil.1 recovers.reads, before] at atEnd
        cases atEnd
    · simp only [Window.isBoundary, depth, Bool.and_eq_true, decide_eq_true_eq] at boundary
      omega
    · rw [Window.isBoundary_congr previous h'.depth (h'.current (.inl atEnd)), boundary]
  | true =>
    obtain ⟨before, closed, t, isLast, ends⟩ := completes atEnd
    rw [Window.ahead_eq_nil.2 atEnd, List.getLast?_nil, Option.none_or] at final
    refine ⟨before, closed, fun w' h' previous => ?_⟩
    rcases h'.current_ne_else apart atEnd with atEnd' | other
    · exact .inl atEnd'
    · rw [final, Option.mem_def.1 isLast] at previous
      refine .inr ?_
      simp only [Window.isBoundary, Window.afterEnding, previous, h'.depth, closed]
      rcases ends with ends | ends <;> simp [ends, other]

end Extends

/-- Tokens that were read stand before those that come last. -/
theorem last_of_reads {v v' : Window} {ts : List Token} (clear : v.feed.fault = none)
    (reads : v.Reads ts v') :
    v'.ahead.getLast?.or v'.previous = v.ahead.getLast?.or v.previous := by
  rw [(reads.ahead clear).1, reads.previous, List.getLast?_append, Option.or_assoc]

/-- A run over more tokens goes on, where the run over the first ones ends, as a run without open
braces over the others. -/
theorem run_extends {limit : Int} {more : List Token} {v w : Window} {last : Option Token}
    (h : Extends more v w) (apart : ∀ t ∈ more.head?, t.type ≠ .elseKw) (depth : v.depth = 0)
    (final : v.ahead.getLast?.or v.previous = last)
    (completes : ∀ step ∈ (run limit v).lastStep, step.Completes last) :
    ∃ u, u.feed.fault = none ∧ u.ahead = more ∧ u.ending = w.ending ∧ u.depth = 0 ∧
      (run limit w).statements = (run limit v).statements ++ (run limit u).statements ∧
      (run limit w).errors = (run limit v).errors ++ (run limit u).errors := by
  have follows := follows_run limit h.clear
  generalize run limit v = r at follows completes ⊢
  -- By induction on the steps of the run over the first tokens. What is kept is that no brace is
  -- open between two steps and that the last token of the row stays the same.
  induction follows generalizing w with
  | finished atEnd =>
    have ahead := h.ahead
    rw [Window.ahead_eq_nil.2 atEnd, List.nil_append] at ahead
    exact ⟨w, h.clear', ahead, rfl, h.depth.trans depth, rfl, rfl⟩
  | @yielded v v' s ts r some reads ok more ih =>
    obtain ⟨w', h', eq⟩ := h.run_yielded apart some reads ok
    obtain ⟨us, reads', phrase⟩ := (Rule.recognizes_declaration limit limit.toNat).sound ok
    have depth' : v'.depth = 0 := by
      rw [reads'.depth, Grammar.closed_declaration _ phrase, depth]
    have rest : ∀ step ∈ r.lastStep, step.Completes last := fun step mem =>
      completes step (Run.mem_lastStep_yielded mem ..)
    obtain ⟨u, clear, ahead, ending, open', statements, errors⟩ :=
      ih h' depth' ((last_of_reads h.clear reads).trans final) rest
    have ending' : w'.ending = w.ending := by rw [h'.ending, h.ending, (reads.ahead h.clear).2.1]
    refine ⟨u, clear, ahead, ending.trans ending', open', ?_, ?_⟩
    · rw [eq, Run.statements, Run.statements, statements, List.cons_append]
    · rw [eq, Run.errors, Run.errors, errors]
  | @skipped v failed v' e ts us r reads broken recovers more ih =>
    have both := reads.append recovers.reads
    have final' := (last_of_reads h.clear both).trans final
    have rest : ∀ step ∈ r.lastStep, step.Completes last := fun step mem =>
      completes step (Run.mem_lastStep_skipped mem ..)
    -- A recovery that ends the row is the last step of the run, about which `completes` speaks.
    have completes' : v'.atEnd = true → Step.Completes last (.skipped e failed v') := by
      intro atEnd
      refine completes _ ?_
      cases more with
      | finished => rfl
      | yielded some reads => cases some (reads.eq_nil atEnd)
      | skipped reads _ recovers =>
        cases recovers.ne_nil ((reads.append recovers.reads).eq_nil atEnd)
    obtain ⟨before, closed, stops⟩ := Extends.recovery apart depth recovers completes' final'
    obtain ⟨failed', w', h', eq⟩ := h.run_skipped reads broken recovers (.inl before) stops
    obtain ⟨u, clear, ahead, ending, open', statements, errors⟩ := ih h' closed final' rest
    have ending' : w'.ending = w.ending := by rw [h'.ending, h.ending, (both.ahead h.clear).2.1]
    refine ⟨u, clear, ahead, ending.trans ending', open', ?_, ?_⟩
    · rw [eq, Run.statements, Run.statements, statements]
    · rw [eq, Run.errors, Run.errors, errors, List.cons_append]

/-- The run over two rows of tokens is the run over the first and then the run over the second: it
yields the statements of both and records the errors of both. The first row has to end where a
declaration does, and the second must not go on with it by an `else`. -/
theorem run_append (limit : Int) {A B : List Token} {z : Token}
    (apart : ∀ t ∈ B.head?, t.type ≠ .elseKw) (hA : ∀ t ∈ A, t.isEof = false)
    (hB : ∀ t ∈ B, t.isEof = false) (hz : z.isEof = true) {a b : Run}
    (first : (Feed.ofList (A ++ [z])).run limit = .ok a)
    (second : (Feed.ofList (B ++ [z])).run limit = .ok b)
    (completes : ∀ step ∈ a.lastStep, step.Completes A.getLast?) :
    ∃ r, (Feed.ofList (A ++ B ++ [z])).run limit = .ok r ∧
      r.statements = a.statements ++ b.statements ∧ r.errors = a.errors ++ b.errors := by
  obtain ⟨v, opened₁, clear₁, ahead₁, ending₁, previous₁, depth₁⟩ := Window.exists_open_ended hA hz
  obtain ⟨x, opened₂, clear₂, ahead₂, ending₂, -, depth₂⟩ := Window.exists_open_ended hB hz
  obtain ⟨w, opened₃, clear₃, ahead₃, ending₃, -, depth₃⟩ :=
    Window.exists_open_ended (List.forall_mem_append.2 ⟨hA, hB⟩) hz
  obtain rfl : run limit v = a := by simpa using (run_of_open opened₁ limit).symm.trans first
  obtain rfl : run limit x = b := by simpa using (run_of_open opened₂ limit).symm.trans second
  -- The run over both rows passes the first one, and what is left looks like the second one.
  have extends₁ : Extends B v w :=
    ⟨clear₁, clear₃, by rw [ahead₁, ahead₃], by rw [ending₁, ending₃], by rw [depth₁, depth₃]⟩
  obtain ⟨u, clear, ahead, ending, depth, statements, errors⟩ :=
    run_extends extends₁ apart depth₁ (by rw [ahead₁, previous₁, Option.or_none]) completes
  have extends₂ : Extends [] x u :=
    ⟨clear₂, clear, by rw [ahead, ahead₂, List.append_nil], by rw [ending, ending₂, ending₃],
      by rw [depth, depth₂]⟩
  obtain ⟨statements', errors'⟩ := extends₂.run_congr limit
  exact ⟨run limit w, run_of_open opened₃ limit, by rw [statements, statements'],
    by rw [errors, errors']⟩

/-- After `print ;`, which is skipped, `nil ;` is read as it is by itself. -/
theorem run_append_print_nil :
    ∃ r, (Feed.ofList ([⟨.printKw, "print", some 1, none⟩, ⟨.semicolon, ";", some 1, none⟩] ++
        [⟨.nilKw, "nil", some 1, none⟩, ⟨.semicolon, ";", some 1, none⟩] ++ [Token.eof])).run 40 =
          .ok r ∧
      r.statements = [.expression (.literal .nil)] ∧
      r.errors = [⟨.noExpression, ⟨.semicolon, ";", some 1, none⟩⟩] := by
  refine run_append 40 (A := [⟨.printKw, "print", some 1, none⟩, ⟨.semicolon, ";", some 1, none⟩])
    (B := [⟨.nilKw, "nil", some 1, none⟩, ⟨.semicolon, ";", some 1, none⟩])
    (by decide) (by decide) (by decide) rfl rfl rfl ?_
  intro step mem
  obtain rfl := Option.some.inj mem
  exact ⟨rfl, rfl, _, rfl, .inl rfl⟩

end Lox
