import Lox.Proofs.Program.Fault
import Lox.Proofs.Reading.Blind
import Lox.Proofs.Token.Spacing

/-!
# Runs do not look at lines

Recovery does not look at lines either: it goes by the types of tokens. So a run over tokens without
lines is the run over the tokens with their lines, once the lines are removed from all that it gives
(`run_erased`), and programs whose tokens are equal but for lines are read alike (`reading_congr`).

Where the words of a program stand, and what comments stand between them, decides on the lines of
its tokens and on nothing else. So all layouts of a program are read alike (`scan_layout`).
-/

namespace Lox

/-- A step, without lines. -/
def Step.erased : Step → Step
  | finished => .finished
  | yielded s after => .yielded s.erased after.erased
  | skipped e failed after => .skipped e.erased failed.erased after.erased
  | interrupted skipping e after => .interrupted (skipping.map SyntaxError.erased) e after.erased

namespace Run

/-- The steps of reading a program, without lines. -/
def erased : Run → Run
  | finished last => .finished last.erased
  | yielded s after rest => .yielded s.erased after.erased rest.erased
  | skipped e failed after rest => .skipped e.erased failed.erased after.erased rest.erased
  | interrupted skipping e last => .interrupted (skipping.map SyntaxError.erased) e last.erased

/-- Without lines a run yields its statements without lines. -/
theorem statements_erased (r : Run) : r.erased.statements = r.statements.map Stmt.erased := by
  induction r with
  | finished | interrupted => rfl
  | yielded s after rest ih => rw [erased, statements, statements, List.map_cons, ih]
  | skipped e failed after rest ih => rw [erased, statements, statements, ih]

/-- Without lines a run records its errors without lines. -/
theorem errors_erased (r : Run) : r.erased.errors = r.errors.map SyntaxError.erased := by
  induction r with
  | finished => rfl
  | interrupted skipping => cases skipping <;> rfl
  | yielded s after rest ih => rw [erased, errors, errors, ih]
  | skipped e failed after rest ih => rw [erased, errors, errors, List.map_cons, ih]

/-- Without lines a run is ended by the same fault. -/
theorem fault_erased (r : Run) : r.erased.fault = r.fault := by
  induction r with
  | finished | interrupted => rfl
  | yielded s after rest ih => rw [erased, fault, fault, ih]
  | skipped e failed after rest ih => rw [erased, fault, fault, ih]

end Run

namespace Window

/-- Whether recovery stops does not show in lines. -/
theorem isBoundary_erased (floor : Nat) (w : Window) :
    w.erased.isBoundary floor = w.isBoundary floor := by
  obtain ⟨previous, current, next, feed, position, depth⟩ := w
  cases previous <;> rfl

/-- Skipping does not look at lines. -/
theorem skipFor_erased (floor : Nat) (clock : List Token) (w : Window) :
    w.erased.skipFor floor (clock.map Token.erased) =
      ((w.skipFor floor clock).1, (w.skipFor floor clock).2.erased) := by
  induction clock generalizing w with
  | nil => rfl
  | cons _ clock ih =>
    -- Both stop or both go on, as all that is asked is the same for both.
    rw [List.map_cons, skipFor, skipFor, atEnd_erased, isBoundary_erased, advanced_erased]
    split
    · rfl
    · cases w.advanced with
      | mk met w' =>
        cases met with
        | none => exact ih w'
        | some e => rfl

/-- Recovery does not look at lines. -/
theorem recover_erased (start floor : Nat) (w : Window) :
    w.erased.recover start floor =
      ((w.recover start floor).1, (w.recover start floor).2.erased) := by
  have same : w.erased.position = w.position := rfl
  rw [recover, recover, advanced_erased, same]
  split
  · cases w.advanced with
    | mk met w' =>
      cases met with
      | none => exact skipFor_erased floor w'.clock w'
      | some e => rfl
  · exact skipFor_erased floor w.clock w

/-- Where a feed begins does not show in lines. -/
theorem open?_erased (f : Feed) : open? f.erased = (open? f).map erased := by
  rw [open?, open?, pull_erased]
  obtain ⟨first, f⟩ := f.pull
  cases first with
  | error e => rfl
  | ok current =>
    have last : current.erased.isEof = current.isEof := rfl
    simp only [Except.map, last]
    split
    · rfl
    · rw [pull_erased]
      obtain ⟨second, f⟩ := f.pull
      cases second <;> rfl

end Window

/-- A step does not look at lines. -/
theorem step_erased (limit : Int) (w : Window) : step limit w.erased = (step limit w).erased := by
  rw [step, step, Window.atEnd_erased]
  split
  · rfl
  · have same : declaration limit w.erased = Rule.erasedResult Stmt.erased (declaration limit w) :=
      Rule.blind_declaration limit limit.toNat w
    rw [same]
    cases declaration limit w with
    | ok s after => rfl
    | error interrupt failed =>
      cases interrupt with
      | fault e => rfl
      | broken e =>
        -- Recovery starts from the same place and looks for the same depth.
        simp only [Rule.erasedResult, Interrupt.erased]
        have position : w.erased.position = w.position := rfl
        have depth : w.erased.depth = w.depth := rfl
        rw [position, depth, Window.recover_erased]
        cases failed.recover w.position w.depth with
        | mk met after => cases met <;> rfl

/-- A run does not look at lines, whatever clock drives it. -/
theorem runFor_erased (limit : Int) (clock : List Token) (w : Window) :
    runFor limit (clock.map Token.erased) w.erased = (runFor limit clock w).erased := by
  induction clock generalizing w with
  | nil => rfl
  | cons _ clock ih =>
    rw [List.map_cons, runFor, runFor, step_erased]
    cases step limit w with
    | finished => rfl
    | yielded s after => exact congrArg (Run.yielded s.erased after.erased) (ih after)
    | skipped e failed after =>
      exact congrArg (Run.skipped e.erased failed.erased after.erased) (ih after)
    | interrupted skipping e after => rfl

/-- A run does not look at lines. -/
theorem run_erased (limit : Int) (w : Window) : run limit w.erased = (run limit w).erased :=
  runFor_erased limit w.clock w

/-- Without lines, reading a program gives its statements and errors without lines. -/
theorem reading_erased (limit : Int) (f : Feed) :
    f.erased.reading limit = ((f.reading limit).1.map Stmt.erased,
      (f.reading limit).2.1.map SyntaxError.erased, (f.reading limit).2.2) := by
  rw [Feed.reading, Feed.reading, Feed.run, Feed.run, Window.open?_erased]
  cases Window.open? f with
  | error e => rfl
  | ok w =>
    simp only [Except.map, run_erased, Run.statements_erased, Run.errors_erased, Run.fault_erased]

/-- Programs whose tokens are equal but for lines are read alike, but for lines. -/
theorem reading_congr {f g : Feed} (same : f.erased = g.erased) (limit : Int) :
    (f.reading limit).1.map Stmt.erased = (g.reading limit).1.map Stmt.erased ∧
      (f.reading limit).2.1.map SyntaxError.erased = (g.reading limit).2.1.map SyntaxError.erased ∧
      (f.reading limit).2.2 = (g.reading limit).2.2 := by
  have both := congrArg (Feed.reading limit) same
  rw [reading_erased, reading_erased] at both
  simpa only [Prod.mk.injEq] using both

/-- Take any words and any two layouts of them. Scanning the first layout succeeds: it gives the
words in their order, as tokens with their types, texts and values on the lines where they stand,
and then the mark of the end. With any limit, reading the layouts meets no fault and gives the same
statements, with equal dumps, and the same errors, but for lines. -/
theorem scan_layout {words : List Lexical.Word} (one two : Lexical.Layout words) :
    scan one.source = ⟨one.tokens ++ [.eof], none⟩ ∧
      one.tokens.map Token.erased = words.map Lexical.Word.token ∧
      ∀ limit, ((scan one.source).reading limit).2.2 = none ∧
        dump false ((scan one.source).reading limit).1 =
          dump false ((scan two.source).reading limit).1 ∧
        ((scan one.source).reading limit).1.map Stmt.erased =
          ((scan two.source).reading limit).1.map Stmt.erased ∧
        ((scan one.source).reading limit).2.1.map SyntaxError.erased =
          ((scan two.source).reading limit).2.1.map SyntaxError.erased := by
  have tokens : ∀ l : Lexical.Layout words, l.tokens.map Token.erased = words.map Lexical.Word.token :=
    fun l => (Lexical.placed_erased l.lead l.row).trans (by rw [l.row_words])
  have scanned := Lexical.scan_source one
  -- Both scans give the words and the mark of the end, but for lines.
  have same : (scan one.source).erased = (scan two.source).erased := by
    rw [scanned, Lexical.scan_source two, Feed.erased, Feed.erased, List.map_append,
      List.map_append, tokens one, tokens two]
  refine ⟨scanned, tokens one, fun limit => ?_⟩
  obtain ⟨statements, errors, -⟩ := reading_congr same limit
  obtain ⟨w, opened, clear, -⟩ := Window.exists_open (one.tokens ++ [.eof])
  have calm : ((scan one.source).reading limit).2.2 = none := by
    rw [scanned]
    exact congrArg (·.2.2) (reading_of_open opened clear limit)
  exact ⟨calm, dump_congr statements, statements, errors⟩

end Lox
