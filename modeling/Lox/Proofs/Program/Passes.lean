import Lox.Proofs.Program.Spent

/-!
# Several passes over one session

A session is asked for statements through any number of passes, in any order, and for single
declarations in between. Once a pass was started, each other pass is refused when it starts,
whatever the first one was answered. There is one exception (`refused_iff_of_answered`): tokens that
are given once can have a fault among the first two. Then no window is opened and the tokens are
lost, so the pass that starts second finds none and ends as if the program were empty.

A pass that is given a fault ends with it. But a fault that comes up in a declaration outside the
passes ends none of them. The pass that runs finds at most the token in front of the fault, twice,
and stops. It ends as if there were no fault where more declarations have read these two as well.
-/

namespace Lox

/-- Whether a supply gives its tokens once and has a fault among the first two. -/
def Supply.FailsEarly (supply : Supply) : Prop :=
  ∃ f e, supply = .feed f ∧ Window.open? f = .error e

namespace Session

/-- Reading on keeps the window open. The pass runs on only if it was given no fault. -/
theorem resumeFor_keeps (s : Session) (clock : List Token) (w : Window) :
    (s.resumeFor clock w).2.2.window.isSome = true ∧ (s.resumeFor clock w).2.1 ≠ .fresh ∧
      ∀ e, (s.resumeFor clock w).1 = .fault e → (s.resumeFor clock w).2.1 = .finished := by
  -- By cases of the turns: each one answers, or reads on from a window.
  fun_induction resumeFor s clock w <;> simp_all

/-- Reading on from an open window keeps it open. The pass runs on only if it was given no fault. -/
theorem resume_keeps {s : Session} (opened : s.window.isSome = true) :
    s.resume.2.2.window.isSome = true ∧ s.resume.2.1 ≠ .fresh ∧
      ∀ e, s.resume.1 = .fault e → s.resume.2.1 = .finished := by
  obtain ⟨w, window⟩ := Option.isSome_iff_exists.1 opened
  rw [resume, window]
  exact resumeFor_keeps s w.clock w

/-- A pass that starts after a window was opened is refused. -/
theorem next_fresh_of_opened {s : Session} (opened : s.window.isSome = true) :
    s.next .fresh = (.refused .session, .finished, s) := by
  obtain ⟨w, window⟩ := Option.isSome_iff_exists.1 opened
  rw [next, start, window]

/-- A pass that starts on tokens with an early fault gives the fault. No window is opened. -/
theorem next_fresh_of_fault {s : Session} {f : Feed} {supply : Supply} {e : LexicalError}
    (closed : s.window = none) (taken : s.supply.take = .ok (f, supply))
    (fault : Window.open? f = .error e) :
    s.next .fresh = (.fault e, .finished, { s with supply }) := by
  rw [next, start, closed, taken]
  simp only [fault]

/-- A pass that starts on tokens without an early fault opens the window. -/
theorem next_fresh_of_open {s : Session} {f : Feed} {supply : Supply} {w : Window}
    (closed : s.window = none) (taken : s.supply.take = .ok (f, supply))
    (opens : Window.open? f = .ok w) :
    s.next .fresh = ({ s with supply, window := some w } : Session).resume := by
  rw [next, start, closed, taken]
  simp only [opens]

/-- A pass that starts on a text that another pass has read is refused. -/
theorem next_fresh_of_claimed {s : Session} {r : Reader} (closed : s.window = none)
    (supply : s.supply = .reader r) (claimed : r.claimed = true) :
    s.next .fresh = (.refused .reader, .finished, s) := by
  rw [next, start, closed, supply, Supply.take, if_pos claimed]

/-- A pass that starts when there are no tokens left opens a window at the end, and ends. -/
theorem next_fresh_of_dry {s : Session} (closed : s.window = none) (dry : s.supply = .feed .dry) :
    ∃ w, s.next .fresh = (.stop, .finished, { s with window := some w }) := by
  have taken : s.supply.take = .ok (.dry, .feed .dry) := by rw [dry, Supply.take]
  have opens : Window.open? .dry = .ok ⟨none, .eof, .eof, .dry, 0, 0⟩ := rfl
  refine ⟨⟨none, .eof, .eof, .dry, 0, 0⟩, ?_⟩
  rw [next_fresh_of_open closed taken opens, ← dry]
  rfl

/-- A declaration is only read from an open window, which stays open. -/
theorem declaration_keeps {s s' : Session} {r : Except Interrupt Stmt}
    (read : s.declaration = some (r, s')) :
    s.window.isSome = true ∧ s'.window.isSome = true := by
  obtain ⟨w, window, split⟩ := Option.map_eq_some_iff.1 read
  refine ⟨by rw [window]; rfl, ?_⟩
  split at split <;> cases split <;> rfl

/-- How far a session over a supply has come after some passes were started. -/
inductive Stage (supply : Supply) (limit : Int) : (started : Nat) → Session → Prop
  /-- Nothing was asked for. -/
  | untouched : Stage supply limit 0 (.new supply limit)
  /-- A pass has opened the window. If it was the first one, there was no early fault. -/
  | opened {started : Nat} {s : Session} (window : s.window.isSome = true)
    (first : started = 0 → ¬ supply.FailsEarly) : Stage supply limit (started + 1) s
  /-- The first pass has lost the tokens at an early fault. -/
  | lost (early : supply.FailsEarly) : Stage supply limit 1 ⟨.feed .dry, limit, none, []⟩
  /-- The text was read by a pass, of this session or not, and no window was opened. -/
  | claimed {started : Nat} {s : Session} {r : Reader} (window : s.window = none)
    (reader : s.supply = .reader r) (read : r.claimed = true) (again : ¬ supply.FailsEarly) :
    Stage supply limit (started + 1) s

/-- The stage stays the same as long as the window is open. -/
theorem Stage.of_opened {supply : Supply} {limit : Int} {started : Nat} {s s' : Session}
    (stage : Stage supply limit started s) (before : s.window.isSome = true)
    (after : s'.window.isSome = true) : 0 < started ∧ Stage supply limit started s' := by
  cases stage with
  | untouched | lost => simp [new] at before
  | opened _ first => exact ⟨Nat.succ_pos _, .opened after first⟩
  | claimed closed => simp [closed] at before

/-- The stage of a session after the first pass was started. -/
theorem stage_next_of_untouched (supply : Supply) (limit : Int) :
    Stage supply limit 1 ((new supply limit).next .fresh).2.2 ∧
      ((new supply limit).next .fresh).2.1 ≠ .fresh ∧
      (((new supply limit).next .fresh).2.1 = .running →
        ((new supply limit).next .fresh).2.2.window.isSome = true ∧
        ∀ e, ((new supply limit).next .fresh).1 ≠ .fault e) := by
  -- The tokens can be taken unless another pass has read the text.
  cases taken : supply.take with
  | error why =>
    cases supply with
    | feed f => simp [Supply.take] at taken
    | reader r =>
      have read : r.claimed = true := by
        rw [Supply.take] at taken
        split at taken
        · assumption
        · cases taken
      rw [next_fresh_of_claimed (s := new (.reader r) limit) rfl rfl read]
      exact ⟨.claimed rfl rfl read (by simp [Supply.FailsEarly]), by simp, by simp⟩
  | ok drawn =>
    obtain ⟨f, left⟩ := drawn
    cases opens : Window.open? f with
    | ok w =>
      rw [next_fresh_of_open (s := new supply limit) rfl taken opens]
      obtain ⟨window, started, faults⟩ := resume_keeps
        (s := { new supply limit with supply := left, window := some w }) rfl
      refine ⟨.opened window fun _ early => ?_, started, fun running => ⟨window, fun e fault => ?_⟩⟩
      · obtain ⟨f', e, rfl, fails⟩ := early
        cases taken
        rw [opens] at fails
        cases fails
      · rw [faults e fault] at running
        cases running
    | error e =>
      rw [next_fresh_of_fault (s := new supply limit) rfl taken opens]
      refine ⟨?_, by simp, by simp⟩
      cases supply with
      | feed f' =>
        cases taken
        exact .lost ⟨f, e, rfl, opens⟩
      | reader r =>
        rw [Supply.take] at taken
        split at taken <;> cases taken
        exact .claimed rfl rfl rfl (by simp [Supply.FailsEarly])

/-- The stage of a session after one more pass was started. That pass runs on only if none was
started before and it was given no fault. -/
theorem Stage.next_fresh {supply : Supply} {limit : Int} {started : Nat} {s : Session}
    (stage : Stage supply limit started s) :
    Stage supply limit (started + 1) (s.next .fresh).2.2 ∧ (s.next .fresh).2.1 ≠ .fresh ∧
      ((s.next .fresh).2.1 = .running → started = 0 ∧ (s.next .fresh).2.2.window.isSome = true ∧
        ∀ e, (s.next .fresh).1 ≠ .fault e) := by
  cases stage with
  | untouched =>
    obtain ⟨stage, used, runs⟩ := stage_next_of_untouched supply limit
    exact ⟨stage, used, fun running => ⟨rfl, runs running⟩⟩
  | opened window =>
    rw [next_fresh_of_opened window]
    exact ⟨.opened window (by simp), by simp, by simp⟩
  | lost =>
    obtain ⟨w, ends⟩ := next_fresh_of_dry (s := ⟨.feed .dry, limit, none, []⟩) rfl rfl
    rw [ends]
    exact ⟨.opened rfl (by simp), by simp, by simp⟩
  | claimed window reader read again =>
    rw [next_fresh_of_claimed window reader read]
    exact ⟨.claimed window reader read again, by simp, by simp⟩

/-- A pass that is not the first to start is refused, except after the tokens were lost: then it
ends without an error. -/
theorem Stage.refused_iff {supply : Supply} {limit : Int} {started : Nat} {s : Session}
    (stage : Stage supply limit started s) (pos : 0 < started) :
    ((∃ why, (s.next .fresh).1 = .refused why) ↔ ¬ (started = 1 ∧ supply.FailsEarly)) ∧
      (started = 1 ∧ supply.FailsEarly →
        (s.next .fresh).1 = .stop ∧ (s.next .fresh).2.2.hasErrors = false) := by
  -- The window is open, the tokens were lost, or the text was read by another pass.
  cases stage with
  | untouched => omega
  | @opened started _ window first =>
    have unfailing : ¬ (started + 1 = 1 ∧ supply.FailsEarly) :=
      fun ⟨one, early⟩ => first (Nat.succ_inj.1 one) early
    rw [next_fresh_of_opened window]
    exact ⟨iff_of_true ⟨_, rfl⟩ unfailing, fun failing => absurd failing unfailing⟩
  | lost early =>
    obtain ⟨w, ends⟩ := next_fresh_of_dry (s := ⟨.feed .dry, limit, none, []⟩) rfl rfl
    rw [ends]
    exact ⟨iff_of_false (by simp) (fun unfailing => unfailing ⟨rfl, early⟩), fun _ => ⟨rfl, rfl⟩⟩
  | @claimed started _ _ window reader read again =>
    have unfailing : ¬ (started + 1 = 1 ∧ supply.FailsEarly) := fun ⟨_, early⟩ => again early
    rw [next_fresh_of_claimed window reader read]
    exact ⟨iff_of_true ⟨_, rfl⟩ unfailing, fun failing => absurd failing unfailing⟩

end Session

/-- A session with the passes that were made over it, the oldest first. -/
structure Shared where
  /-- The session. -/
  session : Session
  /-- How far each pass has come. -/
  passes : List Pass

namespace Shared

/-- What can be done with a session that has passes. -/
inductive Request
  /-- To make one more pass. -/
  | pass
  /-- To ask a pass for the next statement. -/
  | next (i : Nat)
  /-- To read a declaration outside any pass. -/
  | declaration

/-- What comes of a request. -/
inductive Reply
  | made
  | answer (a : Session.Answer)
  | declaration (r : Except Interrupt Stmt)
  /-- There is no such pass, or no window to read a declaration from. -/
  | nothing

/-- A session in front of its tokens, without any pass. -/
def new (supply : Supply) (limit : Int) : Shared := ⟨.new supply limit, []⟩

/-- What comes of a request, and how things stand afterwards. -/
def act (p : Shared) : Request → Reply × Shared
  | .pass => (.made, { p with passes := p.passes ++ [.fresh] })
  | .next i =>
    match p.passes[i]? with
    | none => (.nothing, p)
    | some pass =>
      let (a, pass', session) := p.session.next pass
      (.answer a, ⟨session, p.passes.set i pass'⟩)
  | .declaration =>
    match p.session.declaration with
    | none => (.nothing, p)
    | some (r, session) => (.declaration r, { p with session })

/-- What comes of some requests, made one after the other. -/
def acts (p : Shared) : List Request → List Reply × Shared
  | [] => ([], p)
  | request :: requests =>
    let (reply, p') := p.act request
    let (replies, last) := p'.acts requests
    (reply :: replies, last)

/-- How many passes were started. -/
def started (p : Shared) : Nat := p.passes.countP (· ≠ .fresh)

/-- What holds after any requests, with the replies that they were given. At most one pass runs, and
none does before there is a window or after a pass was given a fault. After a declaration was given
one, the window shows what the fault leaves. -/
structure Kept (supply : Supply) (limit : Int) (replies : List Reply) (p : Shared) : Prop where
  stage : Session.Stage supply limit p.started p.session
  started : ∀ a, .answer a ∈ replies → 0 < p.started
  alone : p.passes.count .running ≤ 1
  opened : .running ∈ p.passes → p.session.window.isSome = true
  sound : ∀ e, .answer (.fault e) ∈ replies → .running ∉ p.passes
  spent : ∀ e, .declaration (.error (.fault e)) ∈ replies → p.session.Spent

variable {supply : Supply} {limit : Int} {replies : List Reply} {p : Shared}

/-- A pass that is not fresh was started. -/
theorem started_pos {i : Nat} {pass : Pass} (at_ : p.passes[i]? = some pass)
    (used : pass ≠ .fresh) : 0 < p.started :=
  List.countP_pos_iff.2 ⟨pass, List.mem_of_getElem? at_, by simpa using used⟩

/-- After a pass that was fresh has come further, one more pass was started. -/
theorem started_set_of_fresh {i : Nat} {pass : Pass} (at_ : p.passes[i]? = some .fresh)
    (used : pass ≠ .fresh) (session : Session) :
    (⟨session, p.passes.set i pass⟩ : Shared).started = p.started + 1 := by
  obtain ⟨inside, at_⟩ := List.getElem?_eq_some_iff.1 at_
  simp [started, List.countP_set inside, at_, used]

/-- After a pass that was not fresh has come further, as many passes were started as before. -/
theorem started_set_of_used {i : Nat} {old pass : Pass} (at_ : p.passes[i]? = some old)
    (was : old ≠ .fresh) (used : pass ≠ .fresh) (session : Session) :
    (⟨session, p.passes.set i pass⟩ : Shared).started = p.started := by
  have pos := started_pos at_ was
  obtain ⟨inside, at_⟩ := List.getElem?_eq_some_iff.1 at_
  rw [started] at pos
  simp only [started, List.countP_set inside, at_]
  rw [if_pos (decide_eq_true was), if_pos (decide_eq_true used)]
  omega

/-- A pass that is asked goes on with the session. -/
theorem act_next {j : Nat} {pass : Pass} (at_ : p.passes[j]? = some pass) :
    p.act (.next j) = (.answer (p.session.next pass).1,
      ⟨(p.session.next pass).2.2, p.passes.set j (p.session.next pass).2.1⟩) := by
  rw [act, at_]

/-- What holds is kept by a reply that no pass starts with, if it is no fault that is given to a
pass, and none that is given to a declaration unless the window shows what that leaves. -/
theorem Kept.reply (kept : Kept supply limit replies p) {reply : Reply}
    (calm : ∀ a, reply = .answer a → 0 < p.started ∧ ∀ e, a ≠ .fault e)
    (left : ∀ e, reply = .declaration (.error (.fault e)) → p.session.Spent) :
    Kept supply limit (replies ++ [reply]) p where
  stage := kept.stage
  started a answered := by
    rcases List.mem_append.1 answered with before | now
    · exact kept.started a before
    · exact (calm a (List.mem_singleton.1 now).symm).1
  alone := kept.alone
  opened := kept.opened
  sound e faulted := by
    rcases List.mem_append.1 faulted with before | now
    · exact kept.sound e before
    · exact absurd rfl ((calm _ (List.mem_singleton.1 now).symm).2 e)
  spent e faulted := by
    rcases List.mem_append.1 faulted with before | now
    · exact kept.spent e before
    · exact left e (List.mem_singleton.1 now).symm

/-- A new pass leaves things as they are. -/
theorem Kept.pass (kept : Kept supply limit replies p) :
    Kept supply limit replies ⟨p.session, p.passes ++ [.fresh]⟩ := by
  have same : (⟨p.session, p.passes ++ [.fresh]⟩ : Shared).started = p.started := by
    simp [Shared.started]
  exact {
    stage := same ▸ kept.stage
    started := same ▸ kept.started
    alone := by simpa [List.count_append] using kept.alone
    opened := by simpa using kept.opened
    sound := by simpa using kept.sound
    spent := kept.spent }

/-- What holds is kept when a fresh pass is asked. -/
theorem Kept.next_fresh (kept : Kept supply limit replies p) {i : Nat}
    (at_ : p.passes[i]? = some .fresh) :
    Kept supply limit (replies ++ [.answer (p.session.next .fresh).1])
      ⟨(p.session.next .fresh).2.2, p.passes.set i (p.session.next .fresh).2.1⟩ := by
  obtain ⟨stage, used, runs⟩ := kept.stage.next_fresh
  have more := started_set_of_fresh at_ used (p.session.next .fresh).2.2
  obtain ⟨inside, here⟩ := List.getElem?_eq_some_iff.1 at_
  -- If a pass runs, the window is open and this pass is refused.
  have refused (running : .running ∈ p.passes) :
      p.session.next .fresh = (.refused .session, .finished, p.session) :=
    Session.next_fresh_of_opened (kept.opened running)
  constructor
  case stage => exact more ▸ stage
  case started => exact fun _ _ => more ▸ Nat.succ_pos _
  case alone =>
    -- If a pass runs, then this one does not come to run; otherwise it is the only one that may.
    rw [List.count_set inside, here]
    by_cases running : .running ∈ p.passes
    · simpa [refused running] using kept.alone
    · rw [List.count_eq_zero_of_not_mem running]
      split <;> split <;> simp
  case opened =>
    intro running
    rcases List.mem_or_eq_of_mem_set running with before | now
    · rw [refused before]
      exact kept.opened before
    · exact (runs now.symm).2.1
  case sound =>
    intro e faulted running
    rcases List.mem_append.1 faulted with past | new
    · rcases List.mem_or_eq_of_mem_set running with before | now
      · exact kept.sound e past before
      · have none := (runs now.symm).1
        have some := kept.started _ past
        omega
    · have answer := Reply.answer.inj (List.mem_singleton.1 new)
      rcases List.mem_or_eq_of_mem_set running with before | now
      · rw [refused before] at answer
        cases answer
      · exact (runs now.symm).2.2 e answer.symm
  case spent =>
    -- After a fault that a declaration was given the window is open, and this pass is refused.
    intro e faulted
    obtain ⟨w, window, spent⟩ := kept.spent e (by simpa using faulted)
    rw [Session.next_fresh_of_opened (by rw [window]; rfl)]
    exact ⟨w, window, spent⟩

/-- What holds is kept when a running pass is asked. -/
theorem Kept.next_running (kept : Kept supply limit replies p) {i : Nat}
    (at_ : p.passes[i]? = some .running) :
    Kept supply limit (replies ++ [.answer p.session.resume.1])
      ⟨p.session.resume.2.2, p.passes.set i p.session.resume.2.1⟩ := by
  have member := List.mem_of_getElem? at_
  have opened := kept.opened member
  obtain ⟨window, used, faults⟩ := Session.resume_keeps opened
  have same := started_set_of_used at_ (by simp) used p.session.resume.2.2
  obtain ⟨pos, stage⟩ := kept.stage.of_opened opened window
  obtain ⟨inside, here⟩ := List.getElem?_eq_some_iff.1 at_
  -- The pass that is asked is the only one that runs, so after it was given a fault none does.
  have alone : p.passes.count .running = 1 :=
    Nat.le_antisymm kept.alone (List.count_pos_iff.2 member)
  have left : (p.passes.set i p.session.resume.2.1).count .running =
      if p.session.resume.2.1 == .running then 1 else 0 := by
    rw [List.count_set inside, here, alone]
    simp
  constructor
  case stage => exact same ▸ stage
  case started => exact fun _ _ => same ▸ pos
  case alone =>
    rw [left]
    split <;> simp
  case opened => exact fun _ => window
  case sound =>
    intro e faulted
    rcases List.mem_append.1 faulted with past | new
    · exact absurd member (kept.sound e past)
    · have answer := Reply.answer.inj (List.mem_singleton.1 new)
      rw [← List.count_eq_zero, left, faults e answer.symm]
      rfl
  case spent =>
    intro e faulted
    obtain ⟨w, window, spent⟩ := kept.spent e (by simpa using faulted)
    exact (Session.resume_of_spent window spent).2.1

/-- What holds is kept when a finished pass is asked: nothing changes. -/
theorem Kept.next_finished (kept : Kept supply limit replies p) {i : Nat}
    (at_ : p.passes[i]? = some .finished) :
    Kept supply limit (replies ++ [.answer .stop]) ⟨p.session, p.passes.set i .finished⟩ := by
  have same : p.passes.set i .finished = p.passes := by
    obtain ⟨inside, here⟩ := List.getElem?_eq_some_iff.1 at_
    rw [← here, List.set_getElem_self]
  rw [same]
  refine kept.reply (fun a answer => ⟨started_pos at_ (by simp), ?_⟩) (by simp)
  cases answer
  simp

/-- What holds is kept when a declaration is read. -/
theorem Kept.declaration (kept : Kept supply limit replies p) {r : Except Interrupt Stmt}
    {session : Session} (read : p.session.declaration = some (r, session)) :
    Kept supply limit replies ⟨session, p.passes⟩ := by
  obtain ⟨before, after⟩ := Session.declaration_keeps read
  exact {
    stage := (kept.stage.of_opened before after).2
    started := kept.started
    alone := kept.alone
    opened := fun _ => after
    sound := kept.sound
    spent := fun e faulted => Session.declaration_spends read (.inl (kept.spent e faulted)) }

/-- What holds is kept by any request. -/
theorem Kept.act (kept : Kept supply limit replies p) (request : Request) :
    Kept supply limit (replies ++ [(p.act request).1]) (p.act request).2 := by
  cases request with
  | pass => exact kept.pass.reply (by simp [Shared.act]) (by simp [Shared.act])
  | next i =>
    rw [Shared.act]
    cases at_ : p.passes[i]? with
    | none => exact kept.reply (by simp) (by simp)
    | some pass =>
      cases pass with
      | fresh => exact kept.next_fresh at_
      | running => exact kept.next_running at_
      | finished => exact kept.next_finished at_
  | declaration =>
    rw [Shared.act]
    cases read : p.session.declaration with
    | none => exact kept.reply (by simp) (by simp)
    | some result =>
      refine (kept.declaration read).reply (by simp) fun e fault => ?_
      exact Session.declaration_spends read (.inr ⟨e, Reply.declaration.inj fault⟩)

/-- What holds is kept by any requests. -/
theorem Kept.acts (kept : Kept supply limit replies p) (requests : List Request) :
    Kept supply limit (replies ++ (p.acts requests).1) (p.acts requests).2 := by
  -- By induction on the requests, each of which keeps what holds.
  induction requests generalizing replies p with
  | nil => simpa [Shared.acts] using kept
  | cons request requests ih => simpa [Shared.acts] using ih (kept.act request)

/-- What holds before any request. -/
theorem kept_new (supply : Supply) (limit : Int) : Kept supply limit [] (new supply limit) where
  stage := .untouched
  started := by simp
  alone := by simp [new]
  opened := by simp [new]
  sound := by simp
  spent := by simp

/-- Whatever was done with a session, if one of its passes was given any answer, then a pass that
was not asked yet is refused when it is asked. The one exception is that the supply gives its tokens
once and fails early, and only one pass was started; then the pass ends, and no error is recorded.
After a pass was given a fault no pass runs, so that any pass which is not finished is a fresh one.
After a declaration outside the passes was given a fault the pass that runs stops when it is asked.
No error is recorded then just if none was before and all tokens were read. -/
theorem refused_iff_of_answered {requests : List Request} {a : Session.Answer}
    (after : (new supply limit).acts requests = (replies, p)) (answered : .answer a ∈ replies) :
    (∀ j, p.passes[j]? = some .fresh →
      ((∃ why, (p.act (.next j)).1 = .answer (.refused why)) ↔
        ¬ (p.started = 1 ∧ supply.FailsEarly)) ∧
      (p.started = 1 ∧ supply.FailsEarly →
        (p.act (.next j)).1 = .answer .stop ∧ (p.act (.next j)).2.session.hasErrors = false)) ∧
    ((∃ e, .answer (.fault e) ∈ replies) → .running ∉ p.passes) ∧
    ((∃ e, .declaration (.error (.fault e)) ∈ replies) → ∀ j, p.passes[j]? = some .running →
      (p.act (.next j)).1 = .answer .stop ∧
      ((p.act (.next j)).2.session.hasErrors = false ↔
        p.session.hasErrors = false ∧ ∃ w, p.session.window = some w ∧ w.atEnd = true)) := by
  have kept : Kept supply limit replies p := by
    simpa [after] using (kept_new supply limit).acts requests
  refine ⟨fun j fresh => ?_, fun ⟨e, faulted⟩ => kept.sound e faulted,
    fun ⟨e, faulted⟩ j running => ?_⟩
  · obtain ⟨refused, ends⟩ := kept.stage.refused_iff (kept.started a answered)
    rw [act_next fresh]
    simpa only [Reply.answer.injEq] using And.intro refused ends
  · obtain ⟨w, window, spent⟩ := kept.spent e faulted
    obtain ⟨stops, -, fine⟩ := Session.resume_of_spent window spent
    rw [act_next running, Session.next, fine]
    simp [stops, window]

/-- The fault that a reply gives to a declaration, if it gives one. -/
def Reply.fault? : Reply → Option LexicalError
  | .declaration (.error (.fault e)) => some e
  | _ => none

/-- A reply that gives a fault to a declaration is nothing else. -/
theorem Reply.eq_of_fault {reply : Reply} {e : LexicalError} (fault : reply.fault? = some e) :
    reply = .declaration (.error (.fault e)) := by
  unfold fault? at fault
  split at fault
  · rw [Option.some.inj fault]
  · cases fault

/-- A fault that is given to a declaration outside the passes leaves the pass that was asked before
running. Here two more declarations read what the fault leaves. -/
theorem running_of_fault :
    ∃ a replies p, (new (.feed (scan "print 1; x y @")) 40).acts
        [.pass, .next 0, .declaration, .declaration, .declaration] = (replies, p) ∧
      .answer a ∈ replies ∧ (∃ e, .declaration (.error (.fault e)) ∈ replies) ∧
      p.passes[0]? = some .running ∧ p.session.hasErrors = false ∧
      ∃ w, p.session.window = some w ∧ w.atEnd = true := by
  refine ⟨_, _, _, rfl, .tail _ (.head _), ?_, by decide +kernel, by decide +kernel,
    (Option.any_eq_true Window.atEnd _).1 (by decide +kernel)⟩
  have met : ((new (.feed (scan "print 1; x y @")) 40).acts
      [.pass, .next 0, .declaration, .declaration, .declaration]).1.findSome? Reply.fault? =
      some ⟨.unexpectedCharacter '@', 1⟩ := by decide +kernel
  obtain ⟨reply, mem, fault⟩ := List.exists_of_findSome?_eq_some met
  exact ⟨_, Reply.eq_of_fault fault ▸ mem⟩

/-- While a pass is given the statements of a text, another one is refused. After a declaration
outside the passes was given a fault, and others have read what it leaves, the pass that runs stops
and no error is recorded. -/
theorem refused_iff_of_answered_call :
    (∃ a replies p, (new (.feed (scan "f(); g();")) 40).acts [.pass, .pass, .next 1] =
        (replies, p) ∧
      .answer a ∈ replies ∧ p.passes[0]? = some .fresh ∧
      ∃ why, (p.act (.next 0)).1 = .answer (.refused why)) ∧
    ∃ a replies p, (new (.feed (scan "print 1; x y @")) 40).acts
        [.pass, .next 0, .declaration, .declaration, .declaration] = (replies, p) ∧
      .answer a ∈ replies ∧ (∃ e, .declaration (.error (.fault e)) ∈ replies) ∧
      p.passes[0]? = some .running ∧ (p.act (.next 0)).1 = .answer .stop ∧
      (p.act (.next 0)).2.session.hasErrors = false := by
  constructor
  · have after : (new (.feed (scan "f(); g();")) 40).acts [.pass, .pass, .next 1] = _ := rfl
    have answered : .answer ((Session.new (.feed (scan "f(); g();")) 40).next .fresh).1 ∈
        ((new (.feed (scan "f(); g();")) 40).acts [.pass, .pass, .next 1]).1 :=
      .tail _ (.tail _ (.head _))
    have unfailing : ¬ (Supply.feed (scan "f(); g();")).FailsEarly := by
      rintro ⟨f, e, same, fails⟩
      have opens : (Window.open? (scan "f(); g();")).isOk = true := by decide +kernel
      rw [Supply.feed.inj same, fails] at opens
      cases opens
    refine ⟨_, _, _, after, answered, rfl, ?_⟩
    exact ((refused_iff_of_answered after answered).1 0 rfl).1.2 fun ⟨_, early⟩ => unfailing early
  · obtain ⟨a, replies, p, after, answered, faulted, running, fine, atEnd⟩ := running_of_fault
    obtain ⟨stops, recorded⟩ := (refused_iff_of_answered after answered).2.2 faulted 0 running
    exact ⟨a, replies, p, after, answered, faulted, running, stops, recorded.2 ⟨fine, atEnd⟩⟩

/-- A text that starts with a fault gives the fault to the pass that starts first. The second pass
is not refused. It ends, and no error is recorded. -/
theorem not_refused_of_fault :
    let after := (new (.feed (scan "@")) defaultLimit).acts [.pass, .next 0, .pass]
    .answer (.fault ⟨.unexpectedCharacter '@', 1⟩) ∈ after.1 ∧
      after.2.passes = [.finished, .fresh] ∧
      (after.2.act (.next 1)).1 = .answer .stop ∧
      (after.2.act (.next 1)).2.session.hasErrors = false := by
  have text : scan "@" = ⟨[], some ⟨.unexpectedCharacter '@', 1⟩⟩ := by decide +kernel
  rw [text]
  exact ⟨.tail _ (.head _), rfl, rfl, rfl⟩

end Shared

end Lox
