import Lox.Proofs.Rule.Outcome

/-!
# Rules look one token ahead

What a rule does follows from the tokens that it reads and from the one that it stops in front of:
wherever the same tokens can be read up to the same token, the rule does the same, whatever was read
before and comes later. `LocalAt` says so of a rule at a window, and also that a rule does not move
a window in another way than by reading, and that a fault comes up where a token is read. It is kept
by all that rules are put together with.
-/

namespace Lox

namespace Window

variable {w v w' v' : Window} {ts : List Token}

/-- Reading on does not change the fault that comes in the end. -/
theorem Reads.fault (h : w.Reads ts w') : w'.feed.fault = w.feed.fault := by
  induction ts generalizing w with
  | nil => rw [reads_nil.1 h]
  | cons t ts ih =>
    obtain ⟨start, -, v, step, rest⟩ := reads_cons.1 h
    rw [ih rest]
    simp only [advanced, start, shifted] at step
    obtain ⟨previous, current, next, ⟨tokens, fault⟩, position, depth⟩ := w
    cases tokens <;> cases fault <;> grind [Feed.pull, Feed.dry, moved]

/-- A fault that comes up is the one that the feed ends with. -/
theorem fault_of_advanced {e : LexicalError} (h : w.advanced = (some e, w')) :
    w.feed.fault = some e := by
  rw [(met_of_advanced h).2.2.1]

/-- A fault that comes up after some tokens is the one that the feed ends with. -/
theorem Reads.fault_of_advanced {x : Window} {e : LexicalError} (h : w.Reads ts x)
    (step : x.advanced = (some e, w')) : w.feed.fault = some e :=
  h.fault ▸ Window.fault_of_advanced step

/-- Where the same tokens lead to the same token, the same token is shown before them. -/
theorem Reads.current_eq (h : w.Reads ts w') (h' : v.Reads ts v')
    (same : v'.current = w'.current) : v.current = w.current := by
  cases ts with
  | nil => rw [← reads_nil.1 h, ← reads_nil.1 h', same]
  | cons t ts => rw [(reads_cons.1 h).2.1, (reads_cons.1 h').2.1]

end Window

namespace Rule

variable {α β σ : Type} {w : Window}

/-- From a window on, what a rule does follows from the tokens that it reads and from the one that
it stops in front of. -/
inductive LocalAt (r : Rule α) (w : Window) : Prop
  | ok {a : α} {w' : Window} {ts : List Token} :
    r w = .ok a w' → w.Reads ts w' →
    (∀ ⦃v v'⦄, v.Reads ts v' → v'.current = w'.current → r v = .ok a v') → LocalAt r w
  | broken {e : SyntaxError} {w' : Window} {ts : List Token} :
    r w = .error (.broken e) w' → w.Reads ts w' →
    (∀ ⦃v v'⦄, v.Reads ts v' → v'.current = w'.current → r v = .error (.broken e) v') →
    LocalAt r w
  | fault {e : LexicalError} {x w' : Window} {ts : List Token} :
    r w = .error (.fault e) w' → w.Reads ts x → x.advanced = (some e, w') → LocalAt r w

/-- What a rule does follows from the tokens that it reads and from the one that it stops in front
of. -/
def Local (r : Rule α) : Prop := ∀ w, LocalAt r w

/-- A local rule succeeds wherever it can read the same tokens up to the same token. -/
theorem Local.ok_of_reads {r : Rule α} (h : Local r) {v v' w' : Window} {a : α} {ts : List Token}
    (ok : r v = .ok a v') (reads : v.Reads ts v') (reads' : w.Reads ts w')
    (same : w'.current = v'.current) : r w = .ok a w' := by
  cases h v with
  | ok ok' reads'' transfer =>
    rw [ok'] at ok
    cases ok
    rw [reads.tokens_eq reads''] at reads'
    exact transfer reads' same
  | broken broken => cases ok.symm.trans broken
  | fault fault => cases ok.symm.trans fault

/-- A local rule breaks off wherever it can read the same tokens up to the same token. -/
theorem Local.broken_of_reads {r : Rule α} (h : Local r) {v v' w' : Window} {e : SyntaxError}
    {ts : List Token} (broken : r v = .error (.broken e) v') (reads : v.Reads ts v')
    (reads' : w.Reads ts w') (same : w'.current = v'.current) : r w = .error (.broken e) w' := by
  cases h v with
  | ok ok => cases broken.symm.trans ok
  | broken broken' reads'' transfer =>
    rw [broken'] at broken
    cases broken
    rw [reads.tokens_eq reads''] at reads'
    exact transfer reads' same
  | fault fault => cases broken.symm.trans fault

/-- A local rule that succeeds has read some tokens. -/
theorem Local.sound {r : Rule α} (h : Local r) : Sound r (fun _ _ => True) := by
  intro w a w' ok
  cases h w with
  | ok ok' reads =>
    cases ok.symm.trans ok'
    exact ⟨_, reads, trivial⟩
  | broken broken => cases ok.symm.trans broken
  | fault fault => cases ok.symm.trans fault

/-- A sequence is local if its first part is and, where this succeeds, the second one. -/
theorem LocalAt.bind {r : Rule α} {f : α → Rule β} (h : LocalAt r w)
    (next : ∀ ⦃a w'⦄, r w = .ok a w' → LocalAt (f a) w') : LocalAt (r >>= f) w := by
  cases h with
  | @ok a v ts first reads same =>
    -- Elsewhere the first part ends in front of the token that the second one starts with, or in
    -- front of the last one if the second reads nothing.
    cases next first with
    | @ok b w' us second reads' same' =>
      refine .ok ((bind_of_ok first).trans second) (reads.append reads') ?_
      intro x x' both last
      obtain ⟨y, one, two⟩ := Window.reads_append.1 both
      rw [bind_of_ok (same one (reads'.current_eq two last))]
      exact same' two last
    | @broken e w' us second reads' same' =>
      refine .broken ((bind_of_ok first).trans second) (reads.append reads') ?_
      intro x x' both last
      obtain ⟨y, one, two⟩ := Window.reads_append.1 both
      rw [bind_of_ok (same one (reads'.current_eq two last))]
      exact same' two last
    | fault second reads' step =>
      exact .fault ((bind_of_ok first).trans second) (reads.append reads') step
  | broken first reads same =>
    exact .broken (bind_of_error first) reads fun x x' one last => bind_of_error (same one last)
  | fault first reads step => exact .fault (bind_of_error first) reads step

/-- A sequence of local rules is local. -/
theorem Local.bind {r : Rule α} {f : α → Rule β} (h : Local r) (next : ∀ a, Local (f a)) :
    Local (r >>= f) := fun w => (h w).bind fun a w' _ => next a w'

/-- A result that is given without reading. -/
theorem Local.pure (a : α) : Local (Pure.pure a : Rule α) := fun w =>
  .ok rfl (.refl w) fun v v' h _ => by rw [Window.reads_nil.1 h]; rfl

/-- A result that is changed. -/
theorem Local.map {r : Rule α} (h : Local r) (f : α → β) : Local (f <$> r) := by
  rw [map_eq_pure_bind]
  exact h.bind fun a => .pure (f a)

/-- Looking at the token to be read. -/
theorem local_peek : Local peek := fun w =>
  .ok (peek_eq w) (.refl w) fun v v' h last => by
    rw [← last, Window.reads_nil.1 h]
    rfl

/-- Blaming a token. -/
theorem local_blame (cause : SyntaxCause) (t : Token) : Local (blame cause t : Rule α) := fun w =>
  .broken rfl (.refl w) fun v v' h _ => by rw [Window.reads_nil.1 h]; rfl

/-- Blaming the token to be read. -/
theorem local_fail (cause : SyntaxCause) : Local (fail cause : Rule α) :=
  local_peek.bind (local_blame cause)

/-- Reading a token. At the end none is read, wherever the end is. -/
theorem local_read : Local read := by
  intro w
  cases start : w.atEnd with
  | true =>
    -- A window at the end that shows the same token is at the end as well.
    have stays : ∀ v : Window, v.atEnd = true → read v = .ok v.current v := fun v last => by
      rw [read_eq, Window.advanced, if_pos last]
    refine .ok (stays w start) (.refl w) ?_
    intro v v' h last
    obtain rfl := Window.reads_nil.1 h
    rw [← last]
    exact stays _ (by rw [Window.atEnd, last]; exact start)
  | false =>
    cases step : w.advanced with
    | mk met w' =>
      cases met with
      | none =>
        have reads : w.Reads [w.current] w' := Window.reads_singleton.2 ⟨start, rfl, step⟩
        exact .ok (read_of_reads reads) reads fun v v' h _ => read_of_reads h
      | some e =>
        have stops : read w = .error (.fault e) w' := by rw [read_eq, step]
        exact .fault stops (.refl w) step

/-- Reading a token of some types. -/
theorem local_accept (types : List TokenType) : Local (accept types) :=
  local_peek.bind fun t => by
    split
    · exact local_read.map some
    · exact .pure none

/-- Reading a token of an expected type. -/
theorem local_expect (type : TokenType) (message : String) : Local (expect type message) :=
  local_peek.bind fun t => by
    split
    · exact local_blame _ t
    · split
      · exact local_read
      · exact local_blame _ t

/-- A loop whose turns are local and read tokens when they go on. -/
theorem local_loop {turn : σ → Rule (Option σ)} (reads : Reads turn) (h : ∀ s, Local (turn s))
    (s : σ) : Local (loop turn s) := by
  intro w
  induction n : w.unread using Nat.strongRecOn generalizing w s with
  | ind n ih =>
    rw [loop_eq reads]
    refine (h s w).bind fun next w' ok => ?_
    cases next with
    | none => exact Local.pure s w'
    | some s' => exact ih _ (n ▸ reads _ _ _ _ ok) s' w' rfl

end Rule

end Lox
