import Lox.Proofs.Program.Step

/-!
# The programs that are read without an error

A run over a list of tokens records no error just if the tokens before the first mark of the end are
a program of the grammar with no more levels than the limit, and then it yields the declarations of
this program (`run_accepts_program`). In particular a row of tokens stands for one program at most.
-/

namespace Lox

open Grammar

variable {limit : Int} {w : Window}

/-- What a run without errors reads is a program, whose declarations it yields. -/
theorem program_of_errors (limit : Int) (clear : w.feed.fault = none)
    (none : (run limit w).errors = []) :
    Program limit.toNat w.ahead (run limit w).statements := by
  have follows := follows_run limit clear
  generalize run limit w = r at follows none ⊢
  induction follows with
  | finished atEnd =>
    rw [Run.statements, Window.ahead_eq_nil.2 atEnd]
    exact .nil
  | yielded _ _ ok _ ih =>
    obtain ⟨us, reads, phrase⟩ := (Rule.recognizes_declaration limit limit.toNat).sound ok
    obtain ⟨split, -, clear'⟩ := reads.ahead clear
    rw [Run.statements, split]
    exact .cons phrase (ih clear' none)
  | skipped =>
    rw [Run.errors] at none
    cases none

/-- A program is read without errors, and its declarations are yielded. Behind each of them comes
another one or the end, so that no `else` goes on with it. -/
theorem errors_of_program (limit : Int) {ts : List Token} {ss : List Stmt}
    (phrase : Program limit.toNat ts ss) (clear : w.feed.fault = none) (ahead : w.ahead = ts) :
    w.current.type ≠ .elseKw ∧ (run limit w).errors = [] ∧ (run limit w).statements = ss := by
  -- By induction on the program, from its end: a declaration is read as it is because of what comes
  -- behind it.
  induction phrase generalizing w with
  | nil =>
    have atEnd := Window.ahead_eq_nil.1 ahead
    have shown : w.current.type = .eof := by simpa [Window.atEnd, Token.isEof] using atEnd
    rw [run_of_atEnd limit atEnd]
    exact ⟨by rw [shown]; decide, rfl, rfl⟩
  | @cons ts us s ss phrase more ih =>
    obtain ⟨after, reads, clear', ahead', -⟩ := Window.exists_reads clear ahead
    obtain ⟨follow, errors, statements⟩ := ih clear' ahead'
    have ok : declaration limit w = .ok s after :=
      (Rule.recognizes_declaration limit limit.toNat).complete phrase reads (by simpa using follow)
    have mem := Rule.current_of_begins (begins_declaration limit.toNat) phrase reads
    obtain ⟨t, ts, rfl, -⟩ := begins_declaration limit.toNat phrase
    obtain ⟨start, -⟩ := Window.reads_cons.1 reads
    rw [run_of_yielded reads (List.cons_ne_nil t ts) (step_of_ok start ok), Run.errors,
      Run.statements, errors, statements]
    exact ⟨fun other => absurd mem (by rw [other]; decide), rfl, rfl⟩

/-- A run over any tokens records no error just if those before the first mark of the end are a
program of the grammar in which no path enters more levels than the limit allows, and it yields the
declarations of this program. -/
theorem run_accepts_program (m : Nat) (ts : List Token) :
    ∃ r, (Feed.ofList ts).run m = .ok r ∧ r.fault = none ∧
      (r.errors = [] ↔ ∃ ss, Program m (ts.takeWhile (!·.isEof)) ss) ∧
      ∀ ss, Program m (ts.takeWhile (!·.isEof)) ss → r.statements = ss := by
  obtain ⟨w, opened, clear, ahead, -⟩ := Window.exists_open ts
  have read : ∀ ss, Program m (ts.takeWhile (!·.isEof)) ss →
      (run m w).errors = [] ∧ (run m w).statements = ss := fun ss phrase =>
    (errors_of_program m phrase clear ahead).2
  refine ⟨run m w, run_of_open opened m, fault_run _ clear, ⟨fun none => ?_, ?_⟩,
    fun ss phrase => (read ss phrase).2⟩
  · exact ⟨_, ahead ▸ program_of_errors (m : Int) clear none⟩
  · rintro ⟨ss, phrase⟩
    exact (read ss phrase).1

end Lox
