import Lox.Proofs.Grammar.Mono
import Lox.Proofs.Program.RoundTrip

/-!
# Printing within the limit

The text of the statements that were read with a limit is read back with the same limit if and only
if none of them needs more levels than that (`reread_iff_nesting`). That is so if there are no `for`
loops among them (`nesting_of_no_for`), but loops of this kind that stand in each other need twice
as many levels when they are written as what they stand for (`not_reread_loopNest`). So the limit is
not kept by printing.
-/

namespace Lox

open Grammar Lexeme Token

variable {limit : Int} {w : Window}

/-- If tokens that spell some declarations are read without errors, then these are yielded, and none
of them needs more levels than there are. -/
theorem nesting_of_errors {ss : List Stmt} (shaped : ∀ s ∈ ss, s.Shaped)
    (clear : w.feed.fault = none) (valid : ∀ t ∈ w.ahead, t.Valid)
    (spelled : w.ahead.map Token.erased = Stmt.spellingAll ss)
    (errors : (run limit w).errors = []) : ∀ s ∈ ss, s.nesting ≤ limit.toNat := by
  have phrase := program_of_errors limit clear errors
  -- With enough levels the tokens stand for these declarations, and they stand for nothing else.
  obtain ⟨big, low, high⟩ : ∃ big : Nat, limit.toNat ≤ big ∧ Stmt.nestingAll ss ≤ big :=
    ⟨max limit.toNat (Stmt.nestingAll ss), Nat.le_max_left .., Nat.le_max_right ..⟩
  obtain ⟨ss', same, phrase'⟩ :=
    program_of_spelled shaped (Stmt.nestingAll_le.1 high) spelled
  have one := (errors_of_program (big : Int) (program_mono low phrase) clear rfl).2.2
  have two := (errors_of_program (big : Int) phrase' clear rfl).2.2
  rw [← two, one] at same
  -- There are no `for` loops among the tokens, so what was read needs a level for each at most.
  have loopless : ∀ t ∈ w.ahead, t.type ≠ .forKw := by
    have all := Stmt.spellingAll_ne_for fun s mem => (shaped s mem).spelling_ne_for
    rw [← spelled, List.forall_mem_map] at all
    exact all
  have fits := ensures_many (ensures_declaration (Nat.le_refl 1) limit.toNat)
    (fun t mem => ⟨valid t mem, fun isFor => absurd isFor (loopless t mem)⟩) phrase
  intro s mem
  obtain ⟨s', mem', eq⟩ := List.mem_map.1 (same ▸ List.mem_map_of_mem mem)
  rw [← Stmt.nesting_erased s, ← eq, Stmt.nesting_erased]
  exact Nat.one_mul limit.toNat ▸ (fits s' mem').nesting

/-- The text of the statements that are read from a window over a text has no lexical fault. It is
read without errors if and only if none of them needs more levels than there are, and then they are
the same but for lines. -/
theorem exists_reread (limit : Int) {indent : String} (clear : w.feed.fault = none)
    (valid : ∀ t ∈ w.ahead, t.Valid) (blank : ∀ c ∈ indent.toList, isBlank c = true) :
    (scan (render indent (run limit w).statements)).fault = none ∧
      ∃ v, Window.open? (scan (render indent (run limit w).statements)) = .ok v ∧
      v.feed.fault = none ∧
      ((run limit v).errors = [] ↔ ∀ s ∈ (run limit w).statements, s.nesting ≤ limit.toNat) ∧
      ((run limit v).errors = [] →
        (run limit v).statements.map Stmt.erased = (run limit w).statements.map Stmt.erased) := by
  have fits := fits_of_mem limit clear valid
  have shaped : ∀ s ∈ (run limit w).statements, s.Shaped := fun s mem => (fits s mem).shaped
  obtain ⟨clearText, v, opens, clearAgain, spelled, valid'⟩ :=
    exists_open_of_lexes (lexes_render blank fun s mem => (fits s mem).legible)
  have deep : (run limit v).errors = [] → ∀ s ∈ (run limit w).statements, s.nesting ≤ limit.toNat :=
    nesting_of_errors shaped clearAgain valid' spelled
  refine ⟨clearText, v, opens, clearAgain, ⟨deep, fun levels => ?_⟩, fun errors => ?_⟩
  · exact (run_of_spelled shaped levels clearAgain spelled).1
  · exact (run_of_spelled shaped (deep errors) clearAgain spelled).2

/-- Take any limit, any text without a lexical fault, the statements that are read from it, and any
indentation made of blanks. The text of these statements has no lexical fault. It is read back with
the same limit without errors if and only if none of them needs more levels than the limit allows,
and then they have the same dump. -/
theorem reread_iff_nesting (limit : Int) {source indent : String}
    (clear : (scan source).fault = none) (blank : ∀ c ∈ indent.toList, isBlank c = true) :
    ∃ r r', (scan source).run limit = .ok r ∧ r.fault = none ∧
      (scan (render indent r.statements)).fault = none ∧
      (scan (render indent r.statements)).run limit = .ok r' ∧ r'.fault = none ∧
      (r'.errors = [] ↔ ∀ s ∈ r.statements, s.nesting ≤ limit.toNat) ∧
      (r'.errors = [] → dump false r'.statements = dump false r.statements) := by
  obtain ⟨w, opened, clearFeed, -, valid⟩ := exists_open_scan clear
  obtain ⟨clearText, v, opens, clearAgain, kept, same⟩ := exists_reread limit clearFeed valid blank
  exact ⟨run limit w, run limit v, run_of_open opened limit, fault_run limit clearFeed, clearText,
    run_of_open opens limit, fault_run limit clearAgain, kept,
    fun errors => dump_congr (same errors)⟩

/-- A loop that is printed as a block in a block is read back just if the limit allows its
levels. -/
theorem reread_iff_nesting_forLoop :
    (scan "for (i;;) print -i;").fault = none ∧ (∀ c ∈ defaultIndent.toList, isBlank c = true) ∧
      ∃ r r', (scan "for (i;;) print -i;").run defaultLimit = .ok r ∧ r.fault = none ∧
        (scan (render defaultIndent r.statements)).fault = none ∧
        (scan (render defaultIndent r.statements)).run defaultLimit = .ok r' ∧ r'.fault = none ∧
        (r'.errors = [] ↔ ∀ s ∈ r.statements, s.nesting ≤ defaultLimit.toNat) ∧
        (r'.errors = [] → dump false r'.statements = dump false r.statements) :=
  have blank : ∀ c ∈ defaultIndent.toList, isBlank c = true := List.all_eq_true.1 (by decide)
  ⟨by decide +kernel, blank, reread_iff_nesting defaultLimit (by decide +kernel) blank⟩

/-- Statements that were read where there is no `for` need no more levels than the limit allows. -/
theorem nesting_of_no_for (limit : Int) (clear : w.feed.fault = none)
    (valid : ∀ t ∈ w.ahead, t.Valid) (loopless : ∀ t ∈ w.ahead, t.type ≠ .forKw) :
    ∀ s ∈ (run limit w).statements, s.nesting ≤ limit.toNat := by
  intro s mem
  obtain ⟨ts, inside, phrase⟩ := exists_phrase_of_mem limit clear s mem
  have fits := ensures_declaration (Nat.le_refl 1) limit.toNat (fun t mem =>
    ⟨valid t (inside t mem), fun isFor => absurd isFor (loopless t (inside t mem))⟩) phrase
  exact Nat.one_mul limit.toNat ▸ fits.nesting

/-! ## Loops in loops -/

/-- The text of `for` loops that stand in each other, around a name. -/
def loopNest : Nat → List Char
  | 0 => ['\n', 'i', ';']
  | k + 1 => ['\n', 'f', 'o', 'r', '(', 'i', ';', ';', ')', '\n'] ++ loopNest k

/-- The name in it. -/
def loopName : Token := plain .identifier "i"

/-- The tokens of such a text. -/
def loopTokens : Nat → List Token
  | 0 => [loopName, sign .semicolon]
  | k + 1 =>
    [sign .forKw, sign .leftParen, loopName, sign .semicolon, sign .semicolon, sign .rightParen] ++
      loopTokens k

/-- The statement that the loops stand for, without lines. -/
def loopTree : Nat → Stmt
  | 0 => .expression (.named loopName)
  | k + 1 =>
    .block [.expression (.named loopName), .whileLoop (.literal (.bool true)) (loopTree k)]

/-- Each loop needs two levels when it is written as what it stands for. -/
theorem nesting_loopTree (k : Nat) : (loopTree k).nesting = 2 * k + 2 := by
  induction k with
  | zero => rfl
  | succ k ih =>
    simp only [loopTree, Stmt.nesting, Stmt.nestingAll, Expr.nesting, ih]
    omega

/-- The text gives its tokens. -/
theorem lexes_loopNest (k : Nat) : Lexes (loopNest k) (loopTokens k) := by
  have isWord : loopName.NamesWord := ⟨'i', [], rfl, rfl, nofun, by decide⟩
  have name : Spells ['i'] [loopName] := spells_name isWord
  induction k with
  | zero =>
    have semicolon := lexes_sign (c := ';') .semicolon (by decide) lexes_nil
    exact lexes_blank rfl (name rfl semicolon)
  | succ k ih =>
    have right := lexes_sign (c := ')') .rightParen (by decide) (lexes_blank (c := '\n') rfl ih)
    have semicolon := lexes_sign (c := ';') .semicolon (by decide) right
    have semicolon' := lexes_sign (c := ';') .semicolon (by decide) semicolon
    have left := lexes_sign (c := '(') .leftParen (by decide) (name rfl semicolon')
    have keyword : Spells ['f', 'o', 'r'] [sign .forKw] := spells_keyword .forKw (by decide)
    exact lexes_blank rfl (keyword rfl left)

/-- A name with a semicolon is an expression statement, given a level for the expression. -/
theorem statement_of_name {ts : List Token} {n : Nat}
    (spelled : ts.map Token.erased = [loopName, sign .semicolon]) :
    Upto Stmt.erased (ExpressionStatement (Expression (n + 1))) ts
      (.expression (.named loopName)) := by
  rw [← List.singleton_append] at spelled
  obtain ⟨us, vs, rfl, inner, spelled⟩ := split_append spelled
  obtain ⟨semicolon, rfl, isSemicolon⟩ := split_singleton spelled
  obtain ⟨e, eq, phrase⟩ := expression_of_spelled (e := .named loopName) (n := n + 1)
    (.named rfl) (Nat.le_add_left 1 n) inner
  exact ⟨.expression e, by rw [Stmt.erased, Stmt.erased, eq],
    .mk phrase (type_of_erased isSemicolon)⟩

/-- Each loop is one level of the grammar. -/
theorem statement_of_loopTokens (k : Nat) {ts : List Token}
    (spelled : ts.map Token.erased = loopTokens k) :
    Upto Stmt.erased (Statement (k + 2) false) ts (loopTree k) := by
  induction k generalizing ts with
  | zero =>
    obtain ⟨s, eq, phrase⟩ := statement_of_name (n := 0) spelled
    exact ⟨s, eq, .expression phrase⟩
  | succ k ih =>
    obtain ⟨keyword, ts, rfl, isFor, spelled⟩ := split_cons spelled
    obtain ⟨left, ts, rfl, isLeft, spelled⟩ := split_cons spelled
    have spelled : ts.map Token.erased =
        [loopName, sign .semicolon] ++ (sign .semicolon :: sign .rightParen :: loopTokens k) :=
      spelled
    obtain ⟨us, ts, rfl, first, spelled⟩ := split_append spelled
    obtain ⟨semicolon, ts, rfl, isSemicolon, spelled⟩ := split_cons spelled
    obtain ⟨right, ts, rfl, isRight, spelled⟩ := split_cons spelled
    obtain ⟨s, eq, phrase⟩ := statement_of_name (n := k + 1) first
    obtain ⟨body, eq', phrase'⟩ := ih spelled
    refine ⟨.forLoop (some s) none none body, ?_, .forLoop (.mk (type_of_erased isFor)
      (type_of_erased isLeft) (.expression phrase) .none (type_of_erased isSemicolon) .none
      (type_of_erased isRight) phrase')⟩
    simp [Stmt.forLoop, Stmt.withIncrement, Stmt.withInitializer, loopTree, Stmt.erased,
      Stmt.erasedAll, eq, eq']

/-- Loops in loops are accepted with two levels more than there are loops. But if there are fewer
than two levels for each loop and two more, then the text of what they stand for is not accepted
with the same limit. -/
theorem not_reread_loopNest (k m : Nat) (enough : k + 2 ≤ m) (short : m < 2 * k + 2)
    {indent : String} (blank : ∀ c ∈ indent.toList, isBlank c = true) :
    (scan (.ofList (loopNest k))).fault = none ∧
      ∃ r r', (scan (.ofList (loopNest k))).run m = .ok r ∧ r.fault = none ∧ r.errors = [] ∧
        (scan (render indent r.statements)).run m = .ok r' ∧ r'.fault = none ∧
        r'.errors ≠ [] := by
  have lexes : Lexes (String.ofList (loopNest k)).toList (loopTokens k) := by
    rw [String.toList_ofList]
    exact lexes_loopNest k
  obtain ⟨clear, w, opened, clearFeed, spelled, valid⟩ := exists_open_of_lexes lexes
  obtain ⟨s, eq, phrase⟩ := statement_of_loopTokens k spelled
  have declared : Declaration (k + 2) w.ahead s := by
    rw [declaration_eq]
    exact .statement phrase
  have program : Program m w.ahead [s] := by
    rw [← List.append_nil w.ahead]
    exact .cons (declaration_mono enough declared) .nil
  obtain ⟨-, errors, statements⟩ := errors_of_program (m : Int) program clearFeed rfl
  obtain ⟨-, v, opens, clearAgain, kept, -⟩ := exists_reread (m : Int) clearFeed valid blank
  refine ⟨clear, _, _, run_of_open opened _, fault_run _ clearFeed, errors, run_of_open opens _,
    fault_run _ clearAgain, fun errors' => ?_⟩
  -- If the text were accepted, the loops would fit in the levels, and they need two each.
  have nesting := kept.1 errors' s (by rw [statements]; exact List.mem_singleton_self s)
  rw [← Stmt.nesting_erased, eq, Stmt.nesting_erased, nesting_loopTree] at nesting
  omega

/-- So the limit that holds unless another is given is not kept by printing: twenty loops are
accepted, but their text is not. -/
theorem not_reread_default :
    (scan (.ofList (loopNest 20))).fault = none ∧
      ∃ r r', (scan (.ofList (loopNest 20))).run defaultLimit = .ok r ∧ r.fault = none ∧
        r.errors = [] ∧
        (scan (render defaultIndent r.statements)).run defaultLimit = .ok r' ∧ r'.fault = none ∧
        r'.errors ≠ [] :=
  not_reread_loopNest 20 40 (by decide) (by decide) (List.all_eq_true.1 (by decide))

end Lox
