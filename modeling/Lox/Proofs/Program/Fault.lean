import Lox.Proofs.Program.Step
import Lox.Proofs.Token.Scan

/-!
# Programs with a lexical fault

A program with a lexical fault is read as far as the window comes before the fault is drawn, which
is one token short of the last good one. What is yielded until then is what is yielded of the good
tokens by themselves, as far as it ends before that place (`reading_of_fault`).

The run over the faulty text is followed next to the run over its good tokens (`Mended`). A step
that ends before the fault is drawn is the same in both runs, since rules and recovery depend on
what they read and the token after that. So the first step that is different is the one that the
fault ends, and the step over the good tokens goes further than any window over the faulty ones.
-/

namespace Lox

/-- All that reading a feed as a program gives: the statements, the errors, and the fault that ends
it. A fault among the first two tokens comes before all else. -/
def Feed.reading (limit : Int) (f : Feed) : List Stmt × List SyntaxError × Option LexicalError :=
  match f.run limit with
  | .error e => ([], [], some e)
  | .ok r => (r.statements, r.errors, r.fault)

/-- A feed that a window without a fault opens on yields what the run from the window does. -/
theorem reading_of_open {f : Feed} {w : Window} (opened : Window.open? f = .ok w)
    (clear : w.feed.fault = none) (limit : Int) :
    f.reading limit = ((run limit w).statements, (run limit w).errors, none) := by
  rw [Feed.reading, run_of_open opened, ← fault_run limit clear]

/-- The first window is over some number of tokens that a fault comes after. The second one stands
at the same place and has the mark of the end instead of the fault. -/
structure Mended (e : LexicalError) (count : Nat) (v w : Window) : Prop where
  /-- The fault comes up. -/
  fault : v.feed.fault = some e
  /-- The same window, but for the fault. -/
  mended : w = { v with feed := .ofList (v.feed.tokens ++ [.eof]) }
  /-- All tokens: those that were read, the two in the window and those to be drawn. -/
  count_eq : v.position + 2 + v.feed.tokens.length = count
  /-- None of them is a mark of the end. -/
  current : v.current.isEof = false
  next : v.next.isEof = false
  others : ∀ t ∈ v.feed.tokens, t.isEof = false

namespace Mended

variable {limit : Int} {e : LexicalError} {count : Nat} {v w v' w' : Window} {ts : List Token}

/-- No fault comes up in the second window. -/
theorem clear (h : Mended e count v w) : w.feed.fault = none := by rw [h.mended]; rfl

/-- The windows show the same, and they count the same. -/
theorem same (h : Mended e count v w) :
    w.current = v.current ∧ w.previous = v.previous ∧ w.position = v.position ∧
      w.depth = v.depth := by
  rw [h.mended]
  exact ⟨rfl, rfl, rfl, rfl⟩

/-- The first window is not at the end. -/
theorem start (h : Mended e count v w) : v.atEnd = false ∧ w.atEnd = false := by
  rw [Window.atEnd, Window.atEnd, h.same.1]
  exact ⟨h.current, h.current⟩

/-- One more token is read from both windows alike, unless it is the last but one. Then the fault
comes up in the first window. -/
theorem advanced (h : Mended e count v w) :
    (∃ v' w', v.advanced = (none, v') ∧ w.advanced = (none, w') ∧ Mended e count v' w') ∨
      v.position + 2 = count ∧ ∃ v', v.advanced = (some e, v') := by
  obtain ⟨fault, rfl, count_eq, current, next, others⟩ := h
  cases tokens : v.feed.tokens with
  | nil =>
    rw [tokens] at count_eq
    exact .inr ⟨count_eq, _, Window.advanced_of_nil current next tokens fault⟩
  | cons t ts =>
    rw [tokens] at count_eq others
    refine .inl ⟨_, _, Window.advanced_of_cons current next tokens,
      Window.advanced_of_cons current next rfl, fault, rfl, ?_, next, ?_, ?_⟩
    · simp only [Window.moved, List.length_cons] at count_eq ⊢
      omega
    · exact others t (List.mem_cons_self ..)
    · exact fun x mem => others x (List.mem_cons_of_mem _ mem)

/-- What is read from the first window is read from the second. -/
theorem reads (h : Mended e count v w) (reads : v.Reads ts v') :
    ∃ w', w.Reads ts w' ∧ Mended e count v' w' := by
  induction ts generalizing v w with
  | nil =>
    obtain rfl := Window.reads_nil.1 reads
    exact ⟨w, .refl w, h⟩
  | cons t ts ih =>
    obtain ⟨-, shown, x, step, rest⟩ := Window.reads_cons.1 reads
    rcases h.advanced with ⟨v₁, w₁, one, two, h₁⟩ | ⟨-, v₁, one⟩
    · obtain rfl : v₁ = x := by simpa using one.symm.trans step
      obtain ⟨w', reads', h'⟩ := ih h₁ rest
      exact ⟨w', ⟨h.start.2, h.same.1.trans shown, w₁, two, reads'⟩, h'⟩
    · simp [step] at one

/-- What is read from the second window is read from the first, as long as the last token but one is
not read. -/
theorem reads_of_le (h : Mended e count v w) (reads : w.Reads ts w')
    (early : w'.position + 2 ≤ count) : ∃ v', v.Reads ts v' ∧ Mended e count v' w' := by
  induction ts generalizing v w with
  | nil =>
    obtain rfl := Window.reads_nil.1 reads
    exact ⟨v, .refl v, h⟩
  | cons t ts ih =>
    obtain ⟨-, shown, x, step, rest⟩ := Window.reads_cons.1 reads
    rcases h.advanced with ⟨v₁, w₁, one, two, h₁⟩ | ⟨last, -⟩
    · obtain rfl : w₁ = x := by simpa using two.symm.trans step
      obtain ⟨v', reads', h'⟩ := ih h₁ rest
      exact ⟨v', ⟨h.start.1, h.same.1.symm.trans shown, v₁, one, reads'⟩, h'⟩
    · have position := reads.position
      rw [h.same.2.2.1, List.length_cons] at position
      omega

/-! ## Steps -/

/-- Recovery stops in the one window if it does in the other. -/
theorem stops (h : Mended e count v w) (floor : Nat) :
    (v.atEnd = true ∨ v.isBoundary floor = true) ↔
      (w.atEnd = true ∨ w.isBoundary floor = true) := by
  obtain ⟨current, previous, -, depth⟩ := h.same
  rw [Window.atEnd, Window.atEnd, current, Window.isBoundary_congr previous depth current]

/-- A step over the faulty text that yields a statement is a step over the good tokens. -/
theorem step_yielded {s : Stmt} (h : Mended e count v w) (some : ts ≠ []) (reads : v.Reads ts v')
    (ok : declaration limit v = .ok s v') :
    ∃ w', Mended e count v' w' ∧ w.Reads ts w' ∧ step limit w = .yielded s w' := by
  obtain ⟨w', reads', h'⟩ := h.reads reads
  exact ⟨w', h', reads', step_of_reads some ok reads reads' h'.same.1⟩

/-- A step over the faulty text that recovers from an error is a step over the good tokens. -/
theorem step_skipped {us : List Token} {failed : Window} {e' : SyntaxError}
    (h : Mended e count v w) (reads : v.Reads ts failed)
    (broken : declaration limit v = .error (.broken e') failed)
    (recovers : Window.Recovers v.depth ts failed us v') :
    ∃ failed' w', Mended e count v' w' ∧ w.Reads (ts ++ us) w' ∧
      step limit w = .skipped e' failed' w' := by
  obtain ⟨failed', reads', h₁⟩ := h.reads reads
  obtain ⟨w', skipped, h'⟩ := h₁.reads recovers.reads
  exact ⟨failed', w', h', reads'.append skipped, step_of_recovers broken reads recovers reads'
    h₁.same.1 h.same.2.2.2 skipped ((h'.stops _).1 recovers.stops)⟩

/-- A fault ends a step over the faulty text only where the step over the good tokens reads the last
token but one. -/
theorem late_of_interrupted {skipping : Option SyntaxError} {last : Window}
    (h : Mended e count v w) (met : step limit v = .interrupted skipping e last) :
    (∀ {s ts w'}, ts ≠ [] → w.Reads ts w' → declaration limit w = .ok s w' →
        count < w'.position + 2) ∧
      ∀ {e' ts failed us w'}, w.Reads ts failed → declaration limit w = .error (.broken e') failed →
        Window.Recovers w.depth ts failed us w' → count < w'.position + 2 := by
  -- If the step ended sooner, then it would end alike over the faulty text, and no fault would come
  -- up.
  constructor
  · intro s ts w' some reads ok
    refine Nat.lt_of_not_le fun early => ?_
    obtain ⟨v', reads', h'⟩ := h.reads_of_le reads early
    rw [step_of_reads some ok reads reads' h'.same.1.symm] at met
    cases met
  · intro e' ts failed us w' reads broken recovers
    refine Nat.lt_of_not_le fun early => ?_
    have further := recovers.reads.position
    obtain ⟨failed', reads', h₁⟩ := h.reads_of_le reads (by omega)
    obtain ⟨v', skipped, h'⟩ := h₁.reads_of_le recovers.reads early
    rw [step_of_recovers broken reads recovers reads' h₁.same.1.symm h.same.2.2.2.symm skipped
      ((h'.stops _).2 recovers.stops)] at met
    cases met

end Mended

/-! ## Runs -/

section

variable {limit : Int} {e : LexicalError} {count : Nat} {v w : Window}

/-- What a run yields, it yields no sooner than where it starts. -/
theorem le_position_of_yields (limit : Int) (clear : w.feed.fault = none) (errors : Nat) :
    ∀ y ∈ (run limit w).yields errors, w.position ≤ y.2.2.position := by
  have follows := follows_run limit clear
  generalize run limit w = r at follows ⊢
  clear clear
  -- Each step of the run moves on, so the start of the rest is no sooner.
  induction follows generalizing errors with
  | finished => exact List.forall_mem_nil _
  | yielded _ reads _ _ ih =>
    have moved := reads.position
    rw [Run.yields, List.forall_mem_cons]
    refine ⟨by simp only; omega, fun y mem => ?_⟩
    have := ih errors y mem
    omega
  | skipped reads _ recovers _ ih =>
    have moved := (reads.append recovers.reads).position
    rw [Run.yields]
    intro y mem
    have := ih (errors + 1) y mem
    omega

/-- From behind the last place where the faulty text can be read no statement is early. -/
theorem filter_yields_eq_nil (limit : Int) (clear : w.feed.fault = none)
    (late : count < w.position + 2) (errors : Nat) :
    ((run limit w).yields errors).filter (fun y => y.2.2.position + 2 ≤ count) = [] := by
  refine List.filter_eq_nil_iff.2 fun y mem => ?_
  have := le_position_of_yields limit clear errors y mem
  simp only [decide_eq_true_eq]
  omega

/-- Where a fault ends a step over the faulty text, the run over the good tokens first records the
error that was being recovered from, if there is one, and yields no statement that is early. -/
theorem run_of_late {skipping : Option SyntaxError} {last : Window} (h : Mended e count v w)
    (met : step limit v = .interrupted skipping e last)
    (broken : ∀ e' ∈ skipping, ∃ ts failed, v.Reads ts failed ∧
      declaration limit v = .error (.broken e') failed) (errors : Nat) :
    skipping.toList <+: (run limit w).errors ∧
      ((run limit w).yields errors).filter (fun y => y.2.2.position + 2 ≤ count) = [] := by
  obtain ⟨late, late'⟩ := h.late_of_interrupted met
  have agree : ∀ e' ∈ skipping, ∃ failed, declaration limit w = .error (.broken e') failed := by
    intro e' mem
    obtain ⟨ts, failed, reads, broken⟩ := broken e' mem
    obtain ⟨failed', reads', h'⟩ := h.reads reads
    exact ⟨failed', (Rule.local_declaration limit limit.toNat).broken_of_reads broken reads reads'
      h'.same.1⟩
  -- The step over the good tokens ends too late for its statement to count. If the fault came up
  -- while an error was recovered from, that step begins with the same error.
  rcases step_cases limit h.clear h.start.2 with
    ⟨s, ts, w', some, reads, ok, eq⟩ | ⟨e', ts, failed, us, w', reads, broken', recovers, eq⟩
  · have last := late some reads ok
    rw [run_of_yielded reads some eq, Run.yields,
      List.filter_cons_of_neg (by simpa using last),
      filter_yields_eq_nil limit (reads.fault ▸ h.clear) last]
    refine ⟨?_, rfl⟩
    cases skipping with
    | none => exact List.nil_prefix
    | some e' =>
      obtain ⟨failed, broken⟩ := agree e' rfl
      cases ok.symm.trans broken
  · have both := reads.append recovers.reads
    have last := late' reads broken' recovers
    rw [run_of_skipped both recovers.ne_nil eq, Run.yields,
      filter_yields_eq_nil limit (both.fault ▸ h.clear) last]
    refine ⟨?_, rfl⟩
    cases skipping with
    | none => exact List.nil_prefix
    | some e'' =>
      obtain ⟨failed', broken⟩ := agree e'' rfl
      cases broken'.symm.trans broken
      exact (List.prefix_cons_inj e').2 List.nil_prefix

/-- The run over the faulty text is ended by the fault. It yields what the run over the good tokens
yields before the last token but one is read, and it records the first errors of that run. -/
theorem run_of_mended (limit : Int) (h : Mended e count v w) (errors : Nat) :
    (run limit v).fault = some e ∧ (run limit v).errors <+: (run limit w).errors ∧
      (run limit v).statements =
        (((run limit w).yields errors).filter fun y => y.2.2.position + 2 ≤ count).map (·.1) := by
  -- By induction on the tokens that can still be read from the faulty text. As long as no fault
  -- comes up, both runs make the same steps.
  induction n : v.unread using Nat.strongRecOn generalizing v w errors with
  | ind n ih =>
    rcases step_outcomes limit h.start.1 with
      ⟨s, ts, v', some, reads, ok, eq⟩ | ⟨e', ts, failed, us, v', reads, broken, recovers, eq⟩ |
      ⟨skipping, fault, last, met, eq, broken⟩
    · obtain ⟨w', h', reads', eq'⟩ := h.step_yielded some reads ok
      obtain ⟨fault, recorded, statements⟩ := ih _ (n ▸ reads.unread_lt some) h' errors rfl
      have early : w'.position + 2 ≤ count := by
        have := h'.count_eq
        rw [h'.same.2.2.1]
        omega
      rw [run_of_yielded reads some eq, run_of_yielded reads' some eq']
      refine ⟨fault, recorded, ?_⟩
      rw [Run.statements, Run.yields, List.filter_cons_of_pos (by simpa using early), List.map_cons,
        statements]
    · obtain ⟨failed', w', h', reads', eq'⟩ := h.step_skipped reads broken recovers
      have both := reads.append recovers.reads
      obtain ⟨fault, recorded, statements⟩ :=
        ih _ (n ▸ both.unread_lt recovers.ne_nil) h' (errors + 1) rfl
      rw [run_of_skipped both recovers.ne_nil eq, run_of_skipped reads' recovers.ne_nil eq']
      exact ⟨fault, (List.prefix_cons_inj e').2 recorded, statements⟩
    · -- The fault ends the run, and the other run goes on behind the last place of this one.
      obtain rfl : fault = e := by simpa [h.fault] using met.symm
      obtain ⟨recorded, none⟩ := run_of_late h eq broken errors
      rw [run_of_interrupted eq, none]
      exact ⟨rfl, recorded, rfl⟩

end

/-- A fault among the first two tokens comes up before there is a window. Otherwise there are two
windows, over the faulty feed and over its good tokens. -/
theorem open_of_fault {ts : List Token} {e : LexicalError} (others : ∀ t ∈ ts, t.isEof = false) :
    (ts.length < 2 ∧ Window.open? ⟨ts, some e⟩ = .error e) ∨
      ∃ v w, Window.open? ⟨ts, some e⟩ = .ok v ∧ Window.open? (.ofList (ts ++ [.eof])) = .ok w ∧
        Mended e ts.length v w := by
  rcases ts with _ | ⟨t, _ | ⟨u, ts⟩⟩
  · exact .inl ⟨by decide, rfl⟩
  · refine .inl ⟨Nat.one_lt_two, ?_⟩
    simp [Window.open?, Feed.pull, others t (by simp)]
  · have current : t.isEof = false := others t (by simp)
    have next : u.isEof = false := others u (by simp)
    refine .inr ⟨⟨none, t, u, ⟨ts, some e⟩, 0, 0⟩, _, ?_, ?_, rfl, rfl, ?_, current, next, ?_⟩
    · simp [Window.open?, Feed.pull, current]
    · simp [Window.open?, Feed.pull, Feed.ofList, current]
    · simp only [List.length_cons]
      omega
    · exact fun x mem => others x (by simp [mem])

/-- Reading good tokens and then a fault yields what reading the good tokens yields before the last
of them but one is read, and then ends with the fault. -/
theorem reading_of_tokens (limit : Int) {ts : List Token} {e : LexicalError}
    (others : ∀ t ∈ ts, t.isEof = false) :
    ∃ r ss es, (Feed.ofList (ts ++ [.eof])).run limit = .ok r ∧
      (Feed.mk ts (some e)).reading limit = (ss, es, some e) ∧
      ss = ((r.yields 0).filter fun y => y.2.2.position + 2 ≤ ts.length).map (·.1) ∧
      es <+: r.errors ∧ (ts.length < 2 → (Feed.mk ts (some e)).run limit = .error e) := by
  rcases open_of_fault (e := e) others with ⟨short, met⟩ | ⟨v, w, opened, opened', mended⟩
  · -- There is no window over the faulty text, and no statement leaves two tokens unread.
    obtain ⟨w, opened, -⟩ := Window.exists_open (ts ++ [.eof])
    have none : ((run limit w).yields 0).filter (fun y => y.2.2.position + 2 ≤ ts.length) = [] := by
      refine List.filter_eq_nil_iff.2 fun y _ => ?_
      simp only [decide_eq_true_eq]
      omega
    refine ⟨run limit w, [], [], run_of_open opened limit, ?_, ?_, List.nil_prefix, fun _ => ?_⟩
    · simp only [Feed.reading, Feed.run, met, Except.map]
    · rw [none, List.map_nil]
    · rw [Feed.run, met]
      rfl
  · obtain ⟨fault, recorded, statements⟩ := run_of_mended limit mended 0
    have enough := mended.count_eq
    refine ⟨run limit w, _, _, run_of_open opened' limit, ?_, statements, recorded, fun short => ?_⟩
    · simp only [Feed.reading, Feed.run, opened, Except.map, fault]
    · omega

/-- Take any limit and any text with a lexical fault, and the run over the good tokens of the text
and a mark of the end. Reading the text ends with the fault. It yields just the statements which
that run yields with at least two of the good tokens unread, and the errors that it records are the
first ones of that run. If there are no two good tokens, the fault comes before there is a window to
read from. -/
theorem reading_of_fault (limit : Int) {source : String} {e : LexicalError}
    (faulty : (scan source).fault = some e) :
    ∃ r ss es, (Feed.ofList ((scan source).tokens ++ [.eof])).run limit = .ok r ∧
      (scan source).reading limit = (ss, es, some e) ∧
      ss = ((r.yields 0).filter fun y => y.2.2.position + 2 ≤ (scan source).tokens.length).map (·.1) ∧
      es <+: r.errors ∧
      ((scan source).tokens.length < 2 → (scan source).run limit = .error e) := by
  have split : scan source = ⟨(scan source).tokens, some e⟩ := by rw [← faulty]
  obtain ⟨before, rest, reaches, -⟩ := (Lexical.feed_eq_fault_iff source.toList _ e).1 split
  have reading := reading_of_tokens limit (e := e) (Lexical.isEof_of_reaches reaches)
  rwa [← split] at reading

/-- A statement is yielded that two good tokens come after, and not the next one, behind which the
text is faulty. The error before them is recorded. -/
theorem reading_of_fault_numberSign :
    (scan "; i; j; #").fault = some ⟨.unexpectedCharacter '#', 1⟩ ∧
      ∃ r ss es, (Feed.ofList ((scan "; i; j; #").tokens ++ [.eof])).run 40 = .ok r ∧
        (scan "; i; j; #").reading 40 = (ss, es, some ⟨.unexpectedCharacter '#', 1⟩) ∧
        ss = ((r.yields 0).filter
          fun y => y.2.2.position + 2 ≤ (scan "; i; j; #").tokens.length).map (·.1) ∧
        es <+: r.errors ∧
        ((scan "; i; j; #").tokens.length < 2 →
          (scan "; i; j; #").run 40 = .error ⟨.unexpectedCharacter '#', 1⟩) :=
  ⟨by decide +kernel, reading_of_fault 40 (by decide +kernel)⟩

end Lox
