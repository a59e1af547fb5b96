import Mathlib.Data.List.TakeWhile
import Lox.Proofs.Grammar.Expand
import Lox.Proofs.Program.Accepts

/-!
# Programs with a loop expanded

Wherever a `for` loop stands in a program that is read without an error, the `while` loop that it
stands for may be written instead, and the program is read as the same statements (`run_expansion`).
That a loop stands there is said by the rules themselves: its clauses are phrases of the grammar,
and its body is what the rule for statements takes off the tokens that come.

The grammar gives some loop with the keyword in question (`expands_program`). It is the loop at
hand, because rules are functions: two rows that a rule takes off the same tokens are the same row.
-/

namespace Lox

open Grammar Rule

variable {α : Type} {ts us xs ys : List Token}

/-- Tokens that do not mark the end come before a mark of the end. -/
theorem takeWhile_of_proper (proper : ∀ t ∈ ts, t.isEof = false) (xs : List Token) :
    (ts ++ xs).takeWhile (!·.isEof) = ts ++ xs.takeWhile (!·.isEof) :=
  List.takeWhile_append_of_pos fun t mem => by rw [proper t mem]; rfl

/-- Tokens before a mark of the end do not mark it. -/
theorem proper_takeWhile (ts : List Token) : ∀ t ∈ ts.takeWhile (!·.isEof), t.isEof = false :=
  fun _ mem => by simpa using List.mem_takeWhile_imp mem

/-! ## Rows that a rule takes -/

/-- Wherever some tokens come with others behind them, a rule reads just the former. -/
def TakesOff (r : Rule α) (ts xs : List Token) : Prop :=
  ∃ a, ∀ w w', w.Reads ts w' → w'.ahead = xs → r w = .ok a w'

/-- A rule that takes one row off some tokens takes no other. -/
theorem TakesOff.eq {r : Rule α} (one : TakesOff r ts xs) (two : TakesOff r us ys)
    (same : ts ++ xs = us ++ ys) (proper : ∀ t ∈ ts ++ xs, t.isEof = false) :
    ts = us ∧ xs = ys := by
  obtain ⟨a, one⟩ := one
  obtain ⟨b, two⟩ := two
  obtain ⟨w, -, clear, ahead, -⟩ := Window.exists_open (ts ++ xs)
  rw [List.takeWhile_eq_self_iff.2 fun t mem => by rw [proper t mem]; rfl] at ahead
  obtain ⟨v, reads, -, left, -⟩ := Window.exists_reads clear ahead
  obtain ⟨v', reads', -, left', -⟩ := Window.exists_reads clear (ahead.trans same)
  have outcome := (one w v reads left).symm.trans (two w v' reads' left')
  obtain ⟨-, rfl⟩ : a = b ∧ v = v' := by simpa using outcome
  obtain rfl := reads.tokens_eq reads'
  exact ⟨rfl, List.append_cancel_left same⟩

/-- A first clause is taken, whatever comes behind it. -/
theorem takesOff_forInitializer {n m : Nat} {first : Option Stmt}
    (phrase : ForInitializer (Expression n) ts first) (le : n ≤ m) (xs : List Token) :
    TakesOff (forInitializer (expression 0 m)) ts xs := by
  refine ⟨first, fun w w' row _ => ?_⟩
  exact (recognizes_forInitializer (recognizes_expression 0 m) (begins_expression m)).complete
    (forInitializer_mono (expression_mono le) phrase) row List.not_mem_nil

/-- A further clause is taken before the token that ends it. -/
theorem takesOff_optionalUntil {n m : Nat} {e : Option Expr} (phrase : Maybe (Expression n) ts e)
    (le : n ≤ m) {t : Token} {type : TokenType} (isLast : t.type = type)
    (other : type ∉ expressionStarters ∧ type ∉ expressionStops) (xs : List Token) :
    TakesOff (optionalUntil type (expression 0 m)) ts (t :: xs) := by
  refine ⟨e, fun w w' row left => ?_⟩
  refine optionalUntil_of_reads (recognizes_expression 0 m) (begins_expression m) other.1 other.2
    (maybe_mono (expression_mono le) phrase) row ?_
  rw [(Window.current_of_ahead left).2, isLast]

/-- What comes next in a window is no `else` that goes on with a phrase. -/
theorem settled_of_noElse {isOpen : Bool} {w : Window} (h : NoElse isOpen w.ahead) :
    Settled isOpen w := by
  intro isTrue isElse
  cases left : w.ahead with
  | nil =>
    have atEnd := Window.ahead_eq_nil.1 left
    rw [Window.atEnd, Token.isEof, isElse] at atEnd
    cases atEnd
  | cons t ts =>
    rw [left] at h
    exact h isTrue t rfl ((Window.current_of_ahead left).2 ▸ isElse)

/-- Nor among the tokens that are to come. -/
theorem noElse_of_settled {isOpen : Bool} {w : Window} (h : Settled isOpen w) :
    NoElse isOpen w.ahead := by
  intro isTrue t mem
  cases left : w.ahead with
  | nil => simp [left] at mem
  | cons u ts =>
    obtain rfl : u = t := by simpa [left] using mem
    exact (Window.current_of_ahead left).2 ▸ h isTrue

/-- A statement is taken if no `else` goes on with it. -/
theorem takesOff_statement {n m : Nat} {isOpen : Bool} {s : Stmt} (phrase : Statement n isOpen ts s)
    (le : n ≤ m) (noElse : NoElse isOpen xs) : TakesOff (statement 0 m) ts xs := by
  refine ⟨s, fun w w' row left => ?_⟩
  exact (recognizes_statements 0 m).1.complete (statement_mono le _ phrase) row
    (settled_of_noElse (left ▸ noElse))

namespace ForLoop

variable {f f' : ForLoop} {post post' after : List Token}

/-- Two loops that stand in front of the same tokens are the same. -/
theorem Stands.eq (one : f.Stands post) (two : f'.Stands post')
    (same : f.row ++ post = f'.row ++ post') (proper : ∀ t ∈ f.row ++ post, t.isEof = false) :
    f = f' ∧ post = post' := by
  obtain ⟨⟨⟨n₁, _, first⟩, ⟨n₂, _, condition⟩, ⟨n₃, _, increment⟩⟩, n₄, _, _, body, noElse⟩ := one
  obtain ⟨⟨⟨n₁', _, first'⟩, ⟨n₂', _, condition'⟩, ⟨n₃', _, increment'⟩⟩, n₄', _, _, body',
    noElse'⟩ := two
  obtain ⟨⟨keyword, isFor⟩, ⟨left, isLeft⟩, ts₁, ts₂, ⟨semicolon, isSemicolon⟩, ts₃,
    ⟨right, isRight⟩, ts₄⟩ := f
  obtain ⟨⟨keyword', isFor'⟩, ⟨left', isLeft'⟩, us₁, us₂, ⟨semicolon', isSemicolon'⟩, us₃,
    ⟨right', isRight'⟩, us₄⟩ := f'
  -- Part by part, each taken off the same tokens by the same rule with as many levels as both need.
  simp only [row, rest, List.cons_append, List.append_assoc, List.forall_mem_cons, List.cons.injEq]
    at same proper
  obtain ⟨rfl, rfl, same₁⟩ := same
  obtain ⟨-, -, proper⟩ := proper
  obtain ⟨rfl, same₂⟩ := (takesOff_forInitializer first (le_max_left n₁ n₁') _).eq
    (takesOff_forInitializer first' (le_max_right n₁ n₁') _) same₁ proper
  have proper := fun t mem => proper t (List.mem_append_right _ mem)
  have ends : TokenType.semicolon ∉ expressionStarters ∧ .semicolon ∉ expressionStops := by decide
  obtain ⟨rfl, same₃⟩ := (takesOff_optionalUntil condition (le_max_left n₂ n₂') isSemicolon ends
    _).eq (takesOff_optionalUntil condition' (le_max_right n₂ n₂') isSemicolon' ends _) same₂ proper
  obtain ⟨rfl, same₄⟩ := List.cons.inj same₃
  have proper := fun t mem => proper t (List.mem_append_right _ (List.mem_cons_of_mem _ mem))
  have ends : TokenType.rightParen ∉ expressionStarters ∧ .rightParen ∉ expressionStops := by decide
  obtain ⟨rfl, same₅⟩ := (takesOff_optionalUntil increment (le_max_left n₃ n₃') isRight ends _).eq
    (takesOff_optionalUntil increment' (le_max_right n₃ n₃') isRight' ends _) same₄ proper
  obtain ⟨rfl, same₆⟩ := List.cons.inj same₅
  have proper := fun t mem => proper t (List.mem_append_right _ (List.mem_cons_of_mem _ mem))
  obtain ⟨rfl, rfl⟩ := (takesOff_statement body (le_max_left n₄ n₄') noElse).eq
    (takesOff_statement body' (le_max_right n₄ n₄') noElse') same₆ proper
  exact ⟨rfl, rfl⟩

/-- The loop is one in front of some tokens: its clauses are what the grammar has in their places,
and its body is what the rule for statements reads of the tokens from there on. -/
structure Fits (f : ForLoop) (after : List Token) : Prop extends f.Clauses where
  body : ∃ limit levels w s w', Window.open? (.ofList (f.body ++ after)) = .ok w ∧
    statement limit levels w = .ok s w' ∧ w.Reads f.body w'

/-! ### Marks of the end -/

/-- Tokens of types that are no mark of the end. -/
theorem proper_of_types {types : List TokenType} (h : ∀ t ∈ ts, t.type ∈ types)
    (other : .eof ∉ types) : ∀ t ∈ ts, t.isEof = false := by
  intro t mem
  have shown := h t mem
  exact beq_eq_false_iff_ne.2 fun isEof => other (isEof ▸ shown)

/-- A single token of such a type. -/
theorem proper_tokenOf {type : TokenType} (t : TokenOf type) (other : type ≠ .eof) :
    t.1.isEof = false := by
  rwa [Token.isEof, t.2, beq_eq_false_iff_ne]

/-- No clause has a mark of the end in it. -/
theorem Clauses.proper (h : f.Clauses) : (∀ t ∈ f.initializer, t.isEof = false) ∧
    (∀ t ∈ f.condition, t.isEof = false) ∧ ∀ t ∈ f.increment, t.isEof = false := by
  obtain ⟨⟨n, _, first⟩, ⟨n', _, condition⟩, ⟨n'', _, increment⟩⟩ := h
  exact ⟨proper_of_types (over_forInitializer (over_expression n) first) (by decide),
    proper_of_types (over_maybe (over_expression n') condition) (by decide),
    proper_of_types (over_maybe (over_expression n'') increment) (by decide)⟩

/-- Nor has the loop, if its body has none. -/
theorem Clauses.proper_row (h : f.Clauses) (body : ∀ t ∈ f.body, t.isEof = false) :
    ∀ t ∈ f.row, t.isEof = false := by
  obtain ⟨first, condition, increment⟩ := h.proper
  simp only [row, rest, List.forall_mem_cons, List.forall_mem_append]
  exact ⟨proper_tokenOf _ nofun, proper_tokenOf _ nofun, first, condition, proper_tokenOf _ nofun,
    increment, proper_tokenOf _ nofun, body⟩

/-- Nor has its expansion. -/
theorem Clauses.proper_expansion (h : f.Clauses) (body : ∀ t ∈ f.body, t.isEof = false)
    (frame : Frame) : ∀ t ∈ f.expansion frame, t.isEof = false := by
  obtain ⟨first, condition, increment⟩ := h.proper
  have test : ∀ t ∈ f.test frame, t.isEof = false := by
    unfold ForLoop.test
    split
    · simpa using proper_tokenOf frame.always nofun
    · exact condition
  have turn : ∀ t ∈ f.turn frame, t.isEof = false := by
    unfold ForLoop.turn
    split
    · exact body
    · simp only [List.forall_mem_cons, List.forall_mem_append]
      exact ⟨proper_tokenOf _ nofun, ⟨body, increment, proper_tokenOf _ nofun,
        List.forall_mem_nil _⟩, proper_tokenOf _ nofun, List.forall_mem_nil _⟩
  have loop : ∀ t ∈ f.whileRow frame, t.isEof = false := by
    simp only [whileRow, List.forall_mem_cons, List.forall_mem_append]
    exact ⟨proper_tokenOf _ nofun, proper_tokenOf _ nofun, test, proper_tokenOf _ nofun, turn⟩
  unfold ForLoop.expansion
  split
  · exact loop
  · simp only [List.forall_mem_cons, List.forall_mem_append]
    exact ⟨proper_tokenOf _ nofun, ⟨first, loop⟩, proper_tokenOf _ nofun, List.forall_mem_nil _⟩

/-- A window on proper tokens and others. -/
theorem exists_open_append (proper : ∀ t ∈ ts, t.isEof = false) (xs : List Token) :
    ∃ w, Window.open? (.ofList (ts ++ xs)) = .ok w ∧ w.feed.fault = none ∧
      w.ahead = ts ++ xs.takeWhile (!·.isEof) := by
  obtain ⟨w, opened, clear, ahead, -⟩ := Window.exists_open (ts ++ xs)
  rw [takeWhile_of_proper proper] at ahead
  exact ⟨w, opened, clear, ahead⟩

/-- What the rules say of a loop and what the grammar says of it is the same. -/
theorem fits_iff : f.Fits after ↔
    f.Stands (after.takeWhile (!·.isEof)) ∧ ∀ t ∈ f.body, t.isEof = false := by
  constructor
  · rintro ⟨clauses, limit, levels, w, s, w', opened, ok, reads⟩
    obtain ⟨v, opened', clear, ahead, -⟩ := Window.exists_open (f.body ++ after)
    obtain rfl : v = w := by simpa [opened] using opened'.symm
    obtain ⟨split, -, -⟩ := reads.ahead clear
    have proper : ∀ t ∈ f.body, t.isEof = false := fun t mem => by
      have kept := List.mem_append_left w'.ahead mem
      rw [← split, ahead] at kept
      exact proper_takeWhile _ t kept
    rw [takeWhile_of_proper proper, split] at ahead
    obtain ⟨isOpen, ts, reads', phrase, settled⟩ := (recognizes_statements limit levels).1.sound ok
    obtain rfl := reads'.tokens_eq reads
    have noElse := List.append_cancel_left ahead ▸ noElse_of_settled settled
    exact ⟨⟨clauses, levels, isOpen, s, phrase, noElse⟩, proper⟩
  · rintro ⟨⟨clauses, n, isOpen, s, phrase, noElse⟩, proper⟩
    obtain ⟨w, opened, clear, ahead⟩ := exists_open_append proper after
    obtain ⟨w', reads, -, left, -⟩ := Window.exists_reads clear ahead
    refine ⟨clauses, 0, n, w, s, w', opened, ?_, reads⟩
    exact (recognizes_statements 0 n).1.complete phrase reads (settled_of_noElse (left ▸ noElse))

end ForLoop

/-! ## Runs -/

/-- What a run without errors reads is a program. -/
theorem program_of_run {limit : Int} {r : Run} (ran : (Feed.ofList ts).run limit = .ok r)
    (clean : r.errors = []) : Program limit.toNat (ts.takeWhile (!·.isEof)) r.statements := by
  obtain ⟨w, opened, clear, ahead, -⟩ := Window.exists_open ts
  obtain rfl : run limit w = r := by simpa using (run_of_open opened limit).symm.trans ran
  exact ahead ▸ program_of_errors limit clear clean

/-- A program is what a run without errors reads. -/
theorem run_of_program {limit : Int} {ss : List Stmt}
    (phrase : Program limit.toNat (ts.takeWhile (!·.isEof)) ss) :
    ∃ r, (Feed.ofList ts).run limit = .ok r ∧ r.fault = none ∧ r.errors = [] ∧
      r.statements = ss := by
  obtain ⟨w, opened, clear, ahead, -⟩ := Window.exists_open ts
  obtain ⟨-, errors, statements⟩ := errors_of_program limit phrase clear ahead
  exact ⟨run limit w, run_of_open opened limit, fault_run _ clear, errors, statements⟩

/-- Wherever `for` stands in a program that is read without errors, a loop stands there. -/
theorem exists_fits {limit : Int} {r : Run} {pre rest : List Token} {keyword : Token}
    (ran : (Feed.ofList (pre ++ keyword :: rest)).run limit = .ok r) (clean : r.errors = [])
    (proper : ∀ t ∈ pre, t.isEof = false) (isFor : keyword.type = .forKw) :
    ∃ (f : ForLoop) (post : List Token), keyword :: rest = f.row ++ post ∧ f.Fits post := by
  have phrase := program_of_run ran clean
  have start : keyword.isEof = false := by rw [Token.isEof, isFor]; rfl
  rw [takeWhile_of_proper proper, List.takeWhile_cons_of_pos (by rw [start]; rfl)] at phrase
  obtain ⟨f, post, same, stands, -⟩ := (expands_program _).expandable phrase []
    (noElse_nil true) pre keyword _ rfl isFor
  have whole : ∀ t ∈ f.row ++ post, t.isEof = false := by
    rw [← same]
    exact List.forall_mem_cons.2 ⟨start, proper_takeWhile rest⟩
  obtain ⟨row, behind⟩ := List.forall_mem_append.1 whole
  refine ⟨f, post ++ rest.dropWhile (!·.isEof), ?_, ForLoop.fits_iff.2 ⟨?_, fun t mem => ?_⟩⟩
  · rw [← List.append_assoc, ← same, List.cons_append, List.takeWhile_append_dropWhile]
  · rw [takeWhile_of_proper behind,
      List.takeWhile_eq_nil_iff.2 (List.dropWhile_get_zero_not _ rest)]
    exact stands
  · refine row t ?_
    simp [ForLoop.row, ForLoop.rest, mem]

/-- **A `for` loop is read as its expansion.** Take any tokens that are read without an error, and a
`for` loop anywhere among them: its keyword, its clauses as the grammar has them, and as its body
the statement that is read there. Put in its place the `while` loop that it stands for: the
condition, or `true` without one, and the body, in a block with the increment if there is one; all
in a block with the first clause unless that is a semicolon by itself. The keyword, the braces, the
parentheses, `true` and the semicolon may be any tokens of their types. With three levels more, or
with still more, the tokens are read without an error as the same statements. -/
theorem run_expansion {pre post : List Token} {f : ForLoop} (fits : f.Fits post) {limit : Int}
    {r : Run} (ran : (Feed.ofList (pre ++ (f.row ++ post))).run limit = .ok r)
    (clean : r.errors = []) (frame : Frame) {limit' : Int} (more : limit.toNat + 3 ≤ limit') :
    ∃ r', (Feed.ofList (pre ++ (f.expansion frame ++ post))).run limit' = .ok r' ∧
      r'.fault = none ∧ r'.errors = [] ∧ r'.statements = r.statements := by
  obtain ⟨stands, body⟩ := ForLoop.fits_iff.1 fits
  have row := fits.proper_row body
  have expansion := fits.proper_expansion body frame
  have phrase := program_of_run ran clean
  refine run_of_program ?_
  rw [List.takeWhile_append] at phrase ⊢
  split at phrase
  · -- The loop comes before any mark of the end.
    rename_i whole
    rw [takeWhile_of_proper row] at phrase
    rw [if_pos whole, takeWhile_of_proper expansion]
    obtain ⟨f', post', same, stands', expanded⟩ := (expands_program _).expandable phrase []
      (noElse_nil true) pre f.keyword.1 _ rfl f.keyword.2
    rw [List.append_nil] at stands'
    have proper : ∀ t ∈ f.row ++ post.takeWhile (!·.isEof), t.isEof = false :=
      List.forall_mem_append.2 ⟨row, proper_takeWhile post⟩
    obtain ⟨rfl, rfl⟩ := stands.eq stands' same proper
    exact program_mono (by omega) (expanded frame)
  · -- The mark of the end comes in front of the loop, which is not read at all.
    rename_i short
    rw [if_neg short]
    exact program_mono (by omega) phrase

/-- A sign or a word on the first line. -/
def firstLine (type : TokenType) (text : String) : TokenOf type := ⟨⟨type, text, some 1, none⟩, rfl⟩

/-- `for (;; b) c;` -/
def loopOverB : ForLoop where
  keyword := firstLine .forKw "for"
  left := firstLine .leftParen "("
  initializer := [(firstLine .semicolon ";").1]
  condition := []
  semicolon := firstLine .semicolon ";"
  increment := [(firstLine .identifier "b").1]
  right := firstLine .rightParen ")"
  body := [(firstLine .identifier "c").1, (firstLine .semicolon ";").1]

/-- The signs and words of an expansion. -/
def plainFrame : Frame where
  outerLeft := firstLine .leftBrace "\x7b"
  keyword := firstLine .whileKw "while"
  left := firstLine .leftParen "("
  always := firstLine .trueKw "true"
  right := firstLine .rightParen ")"
  innerLeft := firstLine .leftBrace "\x7b"
  semicolon := firstLine .semicolon ";"
  innerRight := firstLine .rightBrace "\x7d"
  outerRight := firstLine .rightBrace "\x7d"

/-- `if (a)`, in front of the loop. -/
def ifA : List Token :=
  [(firstLine .ifKw "if").1, (firstLine .leftParen "(").1, (firstLine .identifier "a").1,
    (firstLine .rightParen ")").1]

/-- `else d;`, behind the loop. -/
def elseD : List Token :=
  [(firstLine .elseKw "else").1, (firstLine .identifier "d").1, (firstLine .semicolon ";").1, .eof]

/-- In `if (a) for (;; b) c; else d;` the loop expands to `while (true) { c; b; }`, and the `else`
still belongs to `if (a)`. -/
theorem run_expansion_pendingElse :
    loopOverB.Fits elseD ∧
    ∃ r r', (Feed.ofList (ifA ++ (loopOverB.row ++ elseD))).run 4 = .ok r ∧ r.errors = [] ∧
      (Feed.ofList (ifA ++ (loopOverB.expansion plainFrame ++ elseD))).run 7 = .ok r' ∧
      r'.fault = none ∧ r'.errors = [] ∧ r'.statements = r.statements := by
  have fits : loopOverB.Fits elseD := by
    have increment : Expression 1 loopOverB.increment _ := expression_of_primary (.named rfl)
    exact ⟨⟨⟨0, none, .none rfl⟩, ⟨0, none, .none⟩, ⟨1, _, .some increment⟩⟩,
      2, 2, _, _, _, rfl, rfl, rfl, rfl, _, rfl, rfl, rfl, _, rfl, rfl⟩
  obtain ⟨r, ran, clean⟩ : ∃ r, (Feed.ofList (ifA ++ (loopOverB.row ++ elseD))).run 4 = .ok r ∧
      r.errors = [] := by
    refine ⟨_, rfl, ?_⟩
    decide +kernel
  have more : ((4 : Int).toNat : Int) + 3 ≤ 7 := by decide
  obtain ⟨r', ran', found⟩ := run_expansion fits ran clean plainFrame more
  exact ⟨fits, r, r', ran, clean, ran', found⟩

end Lox
