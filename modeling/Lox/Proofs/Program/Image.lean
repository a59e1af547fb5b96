import Mathlib.Tactic.TFAE
import Lox.Proofs.Program.Fault
import Lox.Proofs.Program.RoundTrip
import Lox.Proofs.Tree.WellFormed

/-!
# What can be yielded

The statements that reading a text yields are well formed, whether or not the text has a lexical
fault, and whatever is wrong with other declarations in it. And every row of well-formed statements
is yielded, but for lines, from some text and with some limit: from the text that they are written
as, with as many levels as they need (`tfae_wellFormed_yielded`).
-/

namespace Lox

variable {limit : Int} {w : Window}

/-- The statements of a run are those that it yields, wherever it does. -/
theorem Run.map_yields (r : Run) (errors : Nat) : (r.yields errors).map (·.1) = r.statements := by
  induction r generalizing errors with
  | finished | interrupted => rfl
  | yielded s after rest ih => rw [yields, statements, List.map_cons, ih]
  | skipped e failed after rest ih => rw [yields, statements, ih]

/-- What a run over valid tokens yields is well formed. -/
theorem wellFormed_of_mem (limit : Int) (clear : w.feed.fault = none)
    (valid : ∀ t ∈ w.ahead, t.Valid) : ∀ s ∈ (run limit w).statements, s.WellFormed := by
  intro s mem
  have fits := fits_of_mem limit clear valid s mem
  exact ⟨fits.shaped, fits.legible⟩

/-- What reading a text yields is well formed. -/
theorem wellFormed_of_reading (limit : Int) (source : String) :
    ∀ s ∈ ((scan source).reading limit).1, s.WellFormed := by
  cases faulty : (scan source).fault with
  | none =>
    obtain ⟨w, opened, clear, -, valid⟩ := exists_open_scan faulty
    rw [reading_of_open opened clear]
    exact wellFormed_of_mem limit clear valid
  | some e =>
    have split : scan source = ⟨(scan source).tokens, some e⟩ := by rw [← faulty]
    obtain ⟨before, rest, reaches, -⟩ := (Lexical.feed_eq_fault_iff source.toList _ e).1 split
    obtain ⟨r, ss, es, whole, reading, eq, -⟩ :=
      reading_of_tokens limit (e := e) (Lexical.isEof_of_reaches reaches)
    -- What is yielded before the fault is also yielded over the good tokens alone.
    obtain ⟨w, opened, clear, ahead, -⟩ := Window.exists_open ((scan source).tokens ++ [.eof])
    have run_eq : r = run limit w := Except.ok.inj (whole.symm.trans (run_of_open opened limit))
    have valid : ∀ t ∈ w.ahead, t.Valid := by
      intro t mem
      rw [ahead] at mem
      have inside : (!t.isEof) = true := List.mem_takeWhile_imp (p := fun t : Token => !t.isEof) mem
      rcases List.mem_append.1 ((List.takeWhile_prefix _).subset mem) with good | last
      · exact valid_of_scan source t good
      · rw [List.mem_singleton.1 last] at inside
        cases inside
    rw [split, reading, eq]
    intro s mem
    obtain ⟨y, kept, rfl⟩ := List.mem_map.1 mem
    refine wellFormed_of_mem limit clear valid _ ?_
    rw [← run_eq, ← r.map_yields 0]
    exact List.mem_map_of_mem (List.mem_filter.1 kept).1

/-- Well-formed statements are yielded from the text that they are written as, with as many levels
as they need, and without errors. -/
theorem yielded_of_wellFormed {ss : List Stmt} (h : ∀ s ∈ ss, s.WellFormed) :
    ∃ ss', (scan (render defaultIndent ss)).reading (Stmt.nestingAll ss) = (ss', [], none) ∧
      ss'.map Stmt.erased = ss.map Stmt.erased := by
  have blank : ∀ c ∈ defaultIndent.toList, Lexeme.isBlank c = true :=
    List.all_eq_true.1 (by decide)
  obtain ⟨-, w, opened, clear, spelled, -⟩ :=
    exists_open_of_lexes (lexes_render blank fun s mem => (h s mem).legible)
  have enough : ∀ s ∈ ss, s.nesting ≤ (Stmt.nestingAll ss : Int).toNat :=
    Stmt.nestingAll_le.1 (Nat.le_refl _)
  obtain ⟨errors, same⟩ :=
    run_of_spelled (fun s mem => (h s mem).shaped) enough clear spelled
  refine ⟨_, ?_, same⟩
  rw [reading_of_open opened clear, errors]

/-- Take any row of statements. They are well formed if and only if, but for the lines of their
tokens, they are just what reading some text with some limit yields. The text may then also be one
that is read without errors and without a lexical fault. -/
theorem tfae_wellFormed_yielded (ss : List Stmt) :
    [∀ s ∈ ss, s.WellFormed,
     ∃ source limit, ((scan source).reading limit).1.map Stmt.erased = ss.map Stmt.erased,
     ∃ source limit ss', (scan source).reading limit = (ss', [], none) ∧
       ss'.map Stmt.erased = ss.map Stmt.erased].TFAE := by
  tfae_have 1 → 3 := fun h => by
    obtain ⟨ss', reading, same⟩ := yielded_of_wellFormed h
    exact ⟨_, _, ss', reading, same⟩
  tfae_have 3 → 2 := by
    rintro ⟨source, limit, ss', reading, same⟩
    exact ⟨source, limit, by rw [reading, same]⟩
  tfae_have 2 → 1 := by
    rintro ⟨source, limit, same⟩
    exact forall_mem_of_map_eq same.symm fun s mem s' eq =>
      (wellFormed_of_reading limit source s mem).congr eq
  tfae_finish

end Lox
