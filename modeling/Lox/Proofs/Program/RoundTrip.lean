import Lox.Proofs.Grammar.FittingStatement
import Lox.Proofs.Program.Accepts
import Lox.Proofs.Tree.Reread

/-!
# Printing and reading back

The statements that a run over a text yields have phrases in the grammar, so they are legible and
need no parentheses (`fits_of_mem`). Their text gives the tokens that they are spelled with, and
these are a program for them. So the text is read back without errors and the statements are the
same, but for lines, if there are as many levels as they need (`reread_of_nesting`). Three times the
limit of the first run is enough (`reread_render`).
-/

namespace Lox

open Grammar Lexeme

variable {limit : Int} {w : Window}

/-- Every statement that a run yields has a phrase among the tokens ahead. -/
theorem exists_phrase_of_mem (limit : Int) (clear : w.feed.fault = none) :
    ∀ s ∈ (run limit w).statements, ∃ ts, (∀ t ∈ ts, t ∈ w.ahead) ∧
      Declaration limit.toNat ts s := by
  have follows := follows_run limit clear
  generalize run limit w = r at follows ⊢
  -- By induction on the steps. The tokens of a step are ahead where it starts, and so are those of
  -- later ones.
  induction follows with
  | finished => exact List.forall_mem_nil _
  | yielded _ reads ok _ ih =>
    obtain ⟨us, reads', phrase⟩ := (Rule.recognizes_declaration limit limit.toNat).sound ok
    obtain ⟨split, -, clear'⟩ := reads.ahead clear
    obtain ⟨split', -, -⟩ := reads'.ahead clear
    rw [Run.statements, List.forall_mem_cons]
    refine ⟨⟨us, fun t mem => split' ▸ List.mem_append_left _ mem, phrase⟩, fun s' mem => ?_⟩
    obtain ⟨vs, inside, phrase'⟩ := ih clear' s' mem
    exact ⟨vs, fun t mem => split ▸ List.mem_append_right _ (inside t mem), phrase'⟩
  | skipped reads _ recovers _ ih =>
    obtain ⟨split, -, clear'⟩ := (reads.append recovers.reads).ahead clear
    rw [Run.statements]
    intro s' mem
    obtain ⟨vs, inside, phrase⟩ := ih clear' s' mem
    exact ⟨vs, fun t mem => split ▸ List.mem_append_right _ (inside t mem), phrase⟩

/-- The window over a text without a fault has all the tokens of the text ahead, which are valid. -/
theorem exists_open_scan {source : String} (clear : (scan source).fault = none) :
    ∃ w, Window.open? (scan source) = .ok w ∧ w.feed.fault = none ∧
      (scan source).tokens = w.ahead ++ [.eof] ∧ ∀ t ∈ w.ahead, t.Valid := by
  obtain ⟨w, opened, clear', ahead, -⟩ := Window.exists_open (scan source).tokens
  obtain ⟨ts, split, others⟩ := exists_tokens clear
  change (scan source).tokens = ts ++ [.eof] at split
  have all : w.ahead = ts := by
    rw [ahead, split, List.takeWhile_append_of_pos (by simpa using others)]
    simp
  have same : Feed.ofList (scan source).tokens = scan source := by
    rw [Feed.ofList, ← clear]
  refine ⟨w, same ▸ opened, clear', all ▸ split, fun t mem => ?_⟩
  exact valid_of_scan source t (split ▸ List.mem_append_left _ (all ▸ mem))

/-- Every statement that a run over the tokens of a text yields is legible, needs no parentheses,
and has three levels at most for each that was allowed. -/
theorem fits_of_mem (limit : Int) (clear : w.feed.fault = none) (valid : ∀ t ∈ w.ahead, t.Valid) :
    ∀ s ∈ (run limit w).statements, FitsDeclaration (3 * limit.toNat) s := by
  intro s mem
  obtain ⟨ts, inside, phrase⟩ := exists_phrase_of_mem limit clear s mem
  exact ensures_declaration (by decide) _
    (fun t mem => ⟨valid t (inside t mem), fun _ => by decide⟩)
    phrase

/-- Tokens that spell some declarations are read without errors, and the declarations are yielded,
if there are as many levels as they need. -/
theorem run_of_spelled {ss : List Stmt} (shaped : ∀ s ∈ ss, s.Shaped)
    (enough : ∀ s ∈ ss, s.nesting ≤ limit.toNat) (clear : w.feed.fault = none)
    (spelled : w.ahead.map Token.erased = Stmt.spellingAll ss) :
    (run limit w).errors = [] ∧ (run limit w).statements.map Stmt.erased = ss.map Stmt.erased := by
  obtain ⟨ss', same, phrase⟩ := program_of_spelled shaped enough spelled
  obtain ⟨-, errors, statements⟩ := errors_of_program limit phrase clear rfl
  exact ⟨errors, statements ▸ same⟩

/-- A text that gives some tokens has no fault, and the window over it has these tokens ahead. -/
theorem exists_open_of_lexes {source : String} {ts : List Token} (lexes : Lexes source.toList ts) :
    (scan source).fault = none ∧
      ∃ w, Window.open? (scan source) = .ok w ∧ w.feed.fault = none ∧
        w.ahead.map Token.erased = ts ∧ ∀ t ∈ w.ahead, t.Valid := by
  obtain ⟨clear, tokens⟩ := lexes 1
  obtain ⟨w, opened, clear', split, valid⟩ := exists_open_scan clear
  refine ⟨clear, w, opened, clear', ?_, valid⟩
  have both : w.ahead.map Token.erased ++ [.eof] = ts ++ [.eof] := by
    rw [← tokens]
    change _ = (scan source).tokens.map Token.erased
    rw [split, List.map_append]
    rfl
  exact List.append_cancel_right both

/-- Printing a program and reading it back gives the program again. Take any limit, any text without
a lexical fault, the statements that are read from it, and any indentation made of blanks. The text
of these statements has no lexical fault, and reading it with three times the limit meets no error
and yields the same statements but for the lines of their tokens, with the same dump and the same
text. -/
theorem reread_render (limit : Int) {source indent : String} (clear : (scan source).fault = none)
    (blank : ∀ c ∈ indent.toList, isBlank c = true) :
    ∃ r, (scan source).run limit = .ok r ∧ r.fault = none ∧
      (scan (render indent r.statements)).fault = none ∧
      ∃ r', (scan (render indent r.statements)).run (3 * limit) = .ok r' ∧ r'.fault = none ∧
        r'.errors = [] ∧ r'.statements.map Stmt.erased = r.statements.map Stmt.erased ∧
        dump false r'.statements = dump false r.statements ∧
        render indent r'.statements = render indent r.statements := by
  obtain ⟨w, opened, clearFeed, -, valid⟩ := exists_open_scan clear
  have fits := fits_of_mem limit clearFeed valid
  obtain ⟨clearText, v, opens, clearAgain, spelled, -⟩ :=
    exists_open_of_lexes (lexes_render blank fun s mem => (fits s mem).legible)
  have three : (3 * limit).toNat = 3 * limit.toNat := by omega
  obtain ⟨errors, same⟩ := run_of_spelled (fun s mem => (fits s mem).shaped)
    (fun s mem => three ▸ (fits s mem).nesting) clearAgain spelled
  exact ⟨run limit w, run_of_open opened limit, fault_run limit clearFeed, clearText,
    run (3 * limit) v, run_of_open opens _, fault_run _ clearAgain, errors, same,
    dump_congr same, render_congr same indent⟩

/-- A `for` loop with all its parts left out is read back, indented by tabs. -/
theorem reread_render_forLoop :
    (scan "for (;;) print -i;").fault = none ∧
      (∀ c ∈ "\t".toList, isBlank c = true) ∧
      ∃ r, (scan "for (;;) print -i;").run 4 = .ok r ∧ r.fault = none ∧
        (scan (render "\t" r.statements)).fault = none ∧
        ∃ r', (scan (render "\t" r.statements)).run (3 * 4) = .ok r' ∧ r'.fault = none ∧
          r'.errors = [] ∧ r'.statements.map Stmt.erased = r.statements.map Stmt.erased ∧
          dump false r'.statements = dump false r.statements ∧
          render "\t" r'.statements = render "\t" r.statements :=
  have blank : ∀ c ∈ "\t".toList, isBlank c = true := List.all_eq_true.1 (by decide)
  ⟨by decide +kernel, blank, reread_render 4 (by decide +kernel) blank⟩

end Lox
