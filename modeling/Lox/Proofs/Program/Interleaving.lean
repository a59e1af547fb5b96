import Lox.Proofs.Program.Limit
import Lox.Proofs.Program.Passes
import Lox.Proofs.Program.Step
import Lox.Proofs.Reading.Blame

/-!
# A pass and declarations outside it

On tokens that a plain run finds no error in, it makes no difference whether a statement is asked
for through the pass that was started or read as a declaration outside it. Either gives the
statement that comes next in the run (`Shared.Left.act_of_cons`), and either moves the window that
both of them read through. At the end the pass stops, and a declaration fails without changing
anything (`Shared.Left.act_declaration`). So any mixture of both gives the statements of the run
(`Shared.acts_interleaved`).
-/

namespace Lox

variable {limit : Int} {w : Window}

/-- At the end no declaration can be read: it fails where it is and blames the mark of the end. -/
theorem declaration_of_atEnd (limit : Int) (clear : w.feed.fault = none) (atEnd : w.atEnd = true) :
    ∃ e, declaration limit w = .error (.broken e) w ∧ e.found = w.current := by
  have atWindow : Rule.LocalAt (declaration limit) w := Rule.local_declaration limit limit.toNat w
  cases atWindow with
  | @ok s after ts ok reads =>
    obtain ⟨us, reads', phrase⟩ := (Rule.recognizes_declaration limit limit.toNat).sound ok
    obtain ⟨t, us, rfl, -⟩ := Grammar.begins_declaration limit.toNat phrase
    cases reads'.eq_nil atEnd
  | @broken e after ts broken reads =>
    obtain rfl := reads.eq_nil atEnd
    obtain rfl := Window.reads_nil.1 reads
    obtain ⟨us, reads', mem⟩ := (Rule.blames_declaration limit limit.toNat).among broken
    rw [reads'.eq_nil atEnd, List.nil_append, List.mem_singleton] at mem
    exact ⟨e, broken, mem⟩
  | fault _ reads faulty => cases clear.symm.trans (reads.fault_of_advanced faulty)

/-- Rules that count the levels have left all of them when a declaration is done, and do otherwise
what rules do that are told how many are left. -/
theorem declaration_counted (C : Rule.Counting limit) (w : Window) :
    C.declaration ⟨w, 0⟩ = Rule.withNesting 0 (declaration limit w) := by
  have counted := (C.countsAs_statements 0).2 w
  rwa [Rule.levelsLeft, Int.sub_zero] at counted

/-- A run that records no error is over at the end, or it goes on after its first declaration. -/
theorem run_cases_of_fine (clear : w.feed.fault = none) (fine : (run limit w).errors = []) :
    (w.atEnd = true ∧ (run limit w).statements = []) ∨
    ∃ s after, w.atEnd = false ∧ declaration limit w = .ok s after ∧ after.feed.fault = none ∧
      (run limit after).errors = [] ∧
      (run limit w).statements = s :: (run limit after).statements := by
  rcases run_cases limit clear with
    ⟨atEnd, eq⟩ | ⟨s, ts, after, some, reads, ok, eq⟩ | ⟨e, _, failed, _, after, -, -, -, eq⟩
  · exact .inl ⟨atEnd, by rw [eq, Run.statements]⟩
  · rw [eq] at fine ⊢
    exact .inr ⟨s, after, reads.atEnd_eq_false some, ok, reads.fault ▸ clear, fine, rfl⟩
  · rw [eq] at fine
    cases fine

namespace Session

variable {s : Session} {t : Stmt} {after : Window} {e : SyntaxError}

/-- A pass gives the declaration that comes next. -/
theorem resume_of_ok (window : s.window = some w) (start : w.atEnd = false)
    (ok : Lox.declaration s.limit w = .ok t after) :
    s.resume = (.statement t, .running, { s with window := some after }) := by
  rw [resume, window]
  simp only [Window.clock, resumeFor, step_of_ok start ok]

/-- At the end a pass stops and nothing changes. -/
theorem resume_of_atEnd (window : s.window = some w) (atEnd : w.atEnd = true) :
    s.resume = (.stop, .finished, s) := by
  rw [resume, window]
  simp only [Window.clock, resumeFor, step_of_atEnd s.limit atEnd]
  rw [← window]

/-- A declaration outside the passes is the one that comes next. -/
theorem declaration_of_ok (window : s.window = some w)
    (ok : Lox.declaration s.limit w = .ok t after) :
    s.declaration = some (.ok t, { s with window := some after }) := by
  rw [declaration, window, Option.map_some, ok]

/-- A declaration outside the passes that fails where it is changes nothing. -/
theorem declaration_of_broken (window : s.window = some w)
    (broken : Lox.declaration s.limit w = .error (.broken e) w) :
    s.declaration = some (.error (.broken e), s) := by
  rw [declaration, window, Option.map_some, broken]
  simp only [← window]

end Session

namespace Shared

variable {calls : List Request} {p : Shared} {s : Stmt} {statements : List Stmt} {ts : List Token}

/-- The statement that a reply gives, if it gives one. -/
def Reply.statement? : Reply → Option Stmt
  | .answer (.statement s) | .declaration (.ok s) => some s
  | _ => none

/-- A reply that says that there is nothing more: a pass stops, or a declaration fails and blames
the mark of the end. -/
def Reply.IsEnd : Reply → Prop
  | .answer .stop => True
  | .declaration (.error (.broken e)) => e.found.isEof = true
  | _ => False

/-- A request for what comes next, through the first pass or outside it. -/
def Request.Calls (q : Request) : Prop := q = .next 0 ∨ q = .declaration

/-- Some statements are left to be read, and nothing but these. The only pass runs, or it has
stopped at the end. -/
structure Left (limit : Int) (statements : List Stmt) (p : Shared) : Prop where
  /-- The limit is the one of the run. -/
  limited : p.session.limit = limit
  /-- No error was recorded. -/
  errors : p.session.errors = []
  /-- A run from the window on would find no error and yield the statements. -/
  window : ∃ w, p.session.window = some w ∧ w.feed.fault = none ∧ (run limit w).errors = [] ∧
    (run limit w).statements = statements
  /-- The pass has stopped only if nothing is left. -/
  pass : p.passes = [.running] ∨ p.passes = [.finished] ∧ statements = []

/-! ## Single requests -/

/-- A running pass goes on from the window. -/
theorem act_of_running (running : p.passes = [.running]) :
    p.act (.next 0) =
      (.answer p.session.resume.1, ⟨p.session.resume.2.2, [p.session.resume.2.1]⟩) := by
  rw [act, running]
  rfl

/-- A declaration that is read outside the passes leaves these as they are. -/
theorem act_of_declaration {r : Except Interrupt Stmt} {session : Session}
    (read : p.session.declaration = some (r, session)) :
    p.act .declaration = (.declaration r, { p with session }) := by
  rw [act, read]

/-- While statements are left, either request gives the first one, and the others are left. -/
theorem Left.act_of_cons (h : Left limit (s :: statements) p) {q : Request} (call : q.Calls) :
    (p.act q).1.statement? = some s ∧ Left limit statements (p.act q).2 := by
  obtain ⟨w, window, clear, fine, shown⟩ := h.window
  have running : p.passes = [.running] := h.pass.resolve_right fun stopped => by cases stopped.2
  rcases run_cases_of_fine clear fine with
    ⟨-, none⟩ | ⟨s', after, start, ok, clear', fine', first⟩
  · cases none.symm.trans shown
  obtain ⟨rfl, rfl⟩ := List.cons.inj (first.symm.trans shown)
  rw [← h.limited] at ok
  -- Both requests leave the window behind the declaration, and the pass running.
  have left : Left limit (run limit after).statements
      ⟨{ p.session with window := some after }, [.running]⟩ :=
    ⟨h.limited, h.errors, ⟨after, rfl, clear', fine', rfl⟩, .inl rfl⟩
  rcases call with rfl | rfl
  · rw [act_of_running running, Session.resume_of_ok window start ok]
    exact ⟨rfl, left⟩
  · rw [act_of_declaration (Session.declaration_of_ok window ok), running]
    exact ⟨rfl, left⟩

/-- Where nothing is left the window is at the end. -/
theorem Left.exists_atEnd (h : Left limit [] p) :
    ∃ w, p.session.window = some w ∧ w.atEnd = true ∧ w.feed.fault = none := by
  obtain ⟨w, window, clear, fine, shown⟩ := h.window
  rcases run_cases_of_fine clear fine with ⟨atEnd, -⟩ | ⟨s', after, -, -, -, -, first⟩
  · exact ⟨w, window, atEnd, clear⟩
  · cases first.symm.trans shown

/-- Where nothing is left the pass stops, if it has not done so before, and the session stays as it
is. -/
theorem Left.act_next (h : Left limit [] p) :
    p.act (.next 0) = (.answer .stop, ⟨p.session, [.finished]⟩) := by
  obtain ⟨w, window, atEnd, -⟩ := h.exists_atEnd
  rcases h.pass with running | ⟨finished, -⟩
  · rw [act_of_running running, Session.resume_of_atEnd window atEnd]
  · rw [act, finished]
    rfl

/-- Where nothing is left a declaration fails and blames the mark of the end. Nothing changes, also
not the count of rules that count the levels. -/
theorem Left.act_declaration (h : Left limit [] p) :
    ∃ e w, e.found.isEof = true ∧ p.session.window = some w ∧
      p.act .declaration = (.declaration (.error (.broken e)), p) ∧
      ∀ C : Rule.Counting limit, C.declaration ⟨w, 0⟩ = .error (.broken e) ⟨w, 0⟩ := by
  obtain ⟨w, window, atEnd, clear⟩ := h.exists_atEnd
  obtain ⟨e, broken, found⟩ := declaration_of_atEnd limit clear atEnd
  refine ⟨e, w, found ▸ atEnd, window, ?_, fun C => ?_⟩
  · rw [← h.limited] at broken
    exact act_of_declaration (Session.declaration_of_broken window broken)
  · rw [declaration_counted, broken, Rule.withNesting]

/-- Where nothing is left either request says so, and nothing is left afterwards. -/
theorem Left.act_of_nil (h : Left limit [] p) {q : Request} (call : q.Calls) :
    (p.act q).1.IsEnd ∧ (p.act q).1.statement? = none ∧ Left limit [] (p.act q).2 := by
  rcases call with rfl | rfl
  · rw [h.act_next]
    exact ⟨trivial, rfl, h.limited, h.errors, h.window, .inr ⟨rfl, rfl⟩⟩
  · obtain ⟨e, w, atEnd, -, reply, -⟩ := h.act_declaration
    rw [reply]
    exact ⟨atEnd, rfl, h⟩

/-! ## Any mixture of requests -/

/-- As long as statements are left each request gives the next one, and after that it says that
there is none. -/
theorem Left.acts (h : Left limit statements p) (all : ∀ q ∈ calls, q.Calls) :
    (p.acts calls).1.filterMap Reply.statement? = statements.take calls.length ∧
      (∀ reply ∈ (p.acts calls).1.drop statements.length, reply.IsEnd) ∧
      Left limit (statements.drop calls.length) (p.acts calls).2 := by
  -- By induction on the requests, while the statements that are left get fewer, up to none.
  induction calls generalizing p statements with
  | nil => exact ⟨rfl, by simp [Shared.acts], h⟩
  | cons q calls ih =>
    obtain ⟨first, others⟩ := List.forall_mem_cons.1 all
    cases statements with
    | nil =>
      obtain ⟨ends, none, left⟩ := h.act_of_nil first
      obtain ⟨replies, rest, last⟩ := ih left others
      rw [Shared.acts]
      refine ⟨?_, ?_, ?_⟩
      · rw [List.filterMap_cons_none none, replies, List.take_nil, List.take_nil]
      · exact List.forall_mem_cons.2 ⟨ends, rest⟩
      · rw [List.drop_nil] at last ⊢
        exact last
    | cons s statements =>
      obtain ⟨given, left⟩ := h.act_of_cons first
      obtain ⟨replies, rest, last⟩ := ih left others
      rw [Shared.acts]
      refine ⟨?_, rest, last⟩
      rw [List.filterMap_cons_some given, replies]
      rfl

/-- Before the pass is asked for the first time all statements of the run are left, as if it ran. -/
theorem exists_left {r : Run} (plain : (Feed.ofList ts).run limit = .ok r) (fine : r.errors = []) :
    ∃ p, Left limit r.statements p ∧
      (Shared.mk (.new (.feed (.ofList ts)) limit) [.fresh]).act (.next 0) = p.act (.next 0) := by
  obtain ⟨w, opens, clear, -⟩ := Window.exists_open ts
  obtain rfl : run limit w = r := Except.ok.inj ((run_of_open opens limit).symm.trans plain)
  have started := Session.next_fresh_of_open (s := .new (.feed (.ofList ts)) limit) rfl rfl opens
  -- The session behind the opening of the window, before the first declaration is read.
  let opened : Session := ⟨.feed .dry, limit, some w, []⟩
  refine ⟨⟨opened, [.running]⟩, ⟨rfl, rfl, ⟨w, rfl, clear, fine, rfl⟩, .inl rfl⟩, ?_⟩
  have fresh : (Shared.mk (.new (.feed (.ofList ts)) limit) [.fresh]).act (.next 0) =
      (.answer opened.resume.1, ⟨opened.resume.2.2, [opened.resume.2.1]⟩) := by
    rw [act]
    simp only [List.getElem?_cons_zero, started]
    rfl
  exact fresh.trans (act_of_running (p := ⟨opened, [.running]⟩) rfl).symm

/-- Take tokens that a plain run finds no error in. Ask a pass over them for a statement, and then,
in any order, ask it again or read declarations outside it. The replies give the statements of the
run, in order and each once, until none is left. Every reply after that says so: the pass stops, and
a declaration fails and blames the mark of the end. Then nothing changes any more: the window with
its position and open braces, the errors, of which none is recorded, and the count of rules that
count the levels, which no declaration changes. -/
theorem acts_interleaved {r : Run} (plain : (Feed.ofList ts).run limit = .ok r)
    (fine : r.errors = []) (all : ∀ q ∈ calls, q.Calls) :
    ∃ replies p, (new (.feed (.ofList ts)) limit).acts (.pass :: .next 0 :: calls) =
        (.made :: replies, p) ∧
      replies.filterMap Reply.statement? = r.statements.take (calls.length + 1) ∧
      (∀ reply ∈ replies.drop r.statements.length, reply.IsEnd) ∧
      p.session.errors = [] ∧
      (∀ (C : Rule.Counting limit) w,
        C.declaration ⟨w, 0⟩ = Rule.withNesting 0 (Lox.declaration limit w)) ∧
      (r.statements.length ≤ calls.length + 1 →
        p.act (.next 0) = (.answer .stop, ⟨p.session, [.finished]⟩) ∧
        ∃ e w, e.found.isEof = true ∧ p.session.window = some w ∧
          p.act .declaration = (.declaration (.error (.broken e)), p) ∧
          ∀ C : Rule.Counting limit, C.declaration ⟨w, 0⟩ = .error (.broken e) ⟨w, 0⟩) := by
  obtain ⟨p, left, same⟩ := exists_left plain fine
  have asked : ∀ q ∈ .next 0 :: calls, Request.Calls q := List.forall_mem_cons.2 ⟨.inl rfl, all⟩
  obtain ⟨replies, ends, last⟩ := left.acts asked
  refine ⟨(p.acts (.next 0 :: calls)).1, (p.acts (.next 0 :: calls)).2, ?_, replies, ends,
    last.errors, declaration_counted, fun short => ?_⟩
  · -- The pass that is asked first opens the window and goes on as one that runs.
    have made : (new (.feed (.ofList ts)) limit).act .pass =
        (.made, ⟨.new (.feed (.ofList ts)) limit, [.fresh]⟩) := rfl
    rw [Shared.acts, made]
    simp only [Shared.acts, same]
  · rw [List.drop_of_length_le (i := (Request.next 0 :: calls).length) short] at last
    exact ⟨last.act_next, last.act_declaration⟩

/-- Two statements are given by a pass and by a declaration outside it, and then there is none left
for either of them. -/
theorem acts_interleaved_twice :
    ∃ r, (Feed.ofList (printNegation ++ printNegation)).run 40 = .ok r ∧ r.errors = [] ∧
      (∀ q ∈ [Request.declaration, .next 0, .declaration], q.Calls) ∧
      ∃ replies p, (new (.feed (.ofList (printNegation ++ printNegation))) 40).acts
          [.pass, .next 0, .declaration, .next 0, .declaration] = (.made :: replies, p) ∧
        replies.filterMap Reply.statement? = r.statements.take 4 ∧
        ∀ reply ∈ replies.drop r.statements.length, reply.IsEnd :=
  have all : ∀ q ∈ [Request.declaration, .next 0, .declaration], q.Calls := by
    simp [Request.Calls]
  have plain : ∃ r, (Feed.ofList (printNegation ++ printNegation)).run 40 = .ok r ∧ r.errors = [] :=
    ⟨_, rfl, rfl⟩
  plain.imp fun _ ⟨ran, fine⟩ => ⟨ran, fine, all, (acts_interleaved ran fine all).imp
    fun _ given => given.imp fun _ given => ⟨given.1, given.2.1, given.2.2.1⟩⟩

end Shared

end Lox
