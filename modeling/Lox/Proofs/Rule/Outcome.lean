import Lox.Proofs.Token.Reads
import Lox.Rule.Loop

/-!
# Outcomes of rules

A rule that succeeds has read a row of tokens and made something of it. `Sound r L` says that the
row and what was made of it stand in the relation `L`; `Complete stops r L` says that the rule finds
any row of `L` that is not followed by a token of the types `stops`. For each step that rules are
made of there is one lemma on what its success means and one on when it succeeds, and for a loop one
principle each (`sound_loop`, `loop_go` with `loop_stop`).
-/

namespace Lox.Rule

variable {α β σ : Type} {w w' : Window}

/-- What a rule makes of the tokens that it reads is related to them. -/
def Sound (r : Rule α) (L : List Token → α → Prop) : Prop :=
  ∀ ⦃w a w'⦄, r w = .ok a w' → ∃ ts, w.Reads ts w' ∧ L ts a

/-- A rule makes of tokens what is related to them, if they are not followed by a token of some
types. -/
def Complete (stops : List TokenType) (r : Rule α) (L : List Token → α → Prop) : Prop :=
  ∀ ⦃w ts a w'⦄, L ts a → w.Reads ts w' → w'.current.type ∉ stops → r w = .ok a w'

/-! ## Sequences -/

/-- A sequence that succeeds has two parts that succeed. -/
theorem bind_ok {r : Rule α} {f : α → Rule β} {b : β} (h : (r >>= f) w = .ok b w') :
    ∃ a v, r w = .ok a v ∧ f a v = .ok b w' := by
  simp only [bind, EStateM.bind] at h
  split at h
  · exact ⟨_, _, ‹_›, h⟩
  · simp at h

/-- A sequence goes on from where its first part succeeds. -/
theorem bind_of_ok {r : Rule α} {f : α → Rule β} {a : α} (h : r w = .ok a w') :
    (r >>= f) w = f a w' := by
  simp only [bind, EStateM.bind, h]

/-- A sequence that breaks off in its first part breaks off. -/
theorem bind_of_error {r : Rule α} {f : α → Rule β} {e : Interrupt}
    (h : r w = .error e w') : (r >>= f) w = .error e w' := by
  simp only [bind, EStateM.bind, h]

/-- A sequence that breaks off does so in its first part, or in the second one behind it. -/
theorem bind_error {r : Rule α} {f : α → Rule β} {e : Interrupt}
    (h : (r >>= f) w = .error e w') :
    r w = .error e w' ∨ ∃ a v, r w = .ok a v ∧ f a v = .error e w' := by
  simp only [bind, EStateM.bind] at h
  split at h
  · exact .inr ⟨_, _, ‹_›, h⟩
  · cases h
    exact .inl ‹_›

/-- A result that was changed comes from a result. -/
theorem map_ok {r : Rule α} {f : α → β} {b : β} (h : (f <$> r) w = .ok b w') :
    ∃ a, r w = .ok a w' ∧ b = f a := by
  simp only [Functor.map, EStateM.map] at h
  split at h
  · simp only [EStateM.Result.ok.injEq] at h
    obtain ⟨rfl, rfl⟩ := h
    exact ⟨_, ‹_›, rfl⟩
  · simp at h

/-- Changing a result changes nothing else. -/
theorem map_of_ok {r : Rule α} {f : α → β} {a : α} (h : r w = .ok a w') :
    (f <$> r) w = .ok (f a) w' := by
  simp only [Functor.map, EStateM.map, h]

/-- A rule that breaks off has no result that could be changed. -/
theorem map_of_error {r : Rule α} {f : α → β} {e : Interrupt} (h : r w = .error e w') :
    (f <$> r) w = .error e w' := by
  simp only [Functor.map, EStateM.map, h]

/-- What is made of a result follows from the result. -/
theorem map_congr {r s : Rule α} {f : α → β} (same : r w = s w) : (f <$> r) w = (f <$> s) w := by
  simp only [Functor.map, EStateM.map, same]

/-- A result that is given without reading. -/
theorem pure_ok {a b : α} (h : (pure a : Rule α) w = .ok b w') : b = a ∧ w' = w := by
  simp only [pure, EStateM.pure, EStateM.Result.ok.injEq] at h
  exact ⟨h.1.symm, h.2.symm⟩

/-- Looking at the token to be read does not fail. -/
theorem peek_bind (f : Token → Rule β) : (peek >>= f) w = f w.current w := rfl

/-- What is read after a look at the token to be read. The rule stands as a whole in `run`, so that
its cases can be split. -/
theorem peek_run (f : Token → Rule β) : (peek >>= f) w = (f w.current).run w := rfl

/-- Asking for the type of the token to be read does not fail. -/
theorem comes_bind (type : TokenType) (f : Bool → Rule β) :
    (comes type >>= f) w = f (w.current.type == type) w := rfl

/-! ## Single tokens -/

/-- A type other than that of the mark of the end is shown in front of the end. -/
theorem atEnd_of_type {type : TokenType} (h : w.current.type = type) (notEof : type ≠ .eof) :
    w.atEnd = false := by
  simp [Window.atEnd, Token.isEof, h, notEof]

/-- In front of the end `read` reads the token that is shown. -/
theorem read_ok {t : Token} (h : read w = .ok t w') (start : w.atEnd = false) :
    w.Reads [t] w' := by
  rw [read_eq] at h
  split at h
  · simp only [EStateM.Result.ok.injEq] at h
    obtain ⟨rfl, rfl⟩ := h
    exact Window.reads_singleton.2 ⟨start, rfl, ‹_›⟩
  · simp at h

/-- A token that can be read is read. -/
theorem read_of_reads {t : Token} (h : w.Reads [t] w') : read w = .ok t w' := by
  obtain ⟨-, rfl, step⟩ := Window.reads_singleton.1 h
  rw [read_eq, step]

/-- Looking at a token of a type and then reading it. -/
theorem read_bind_ok {type : TokenType} {f : Token → Rule β} {b : β}
    (h : (read >>= f) w = .ok b w') (shown : w.current.type = type) (notEof : type ≠ .eof) :
    ∃ t v, t.type = type ∧ w.Reads [t] v ∧ f t v = .ok b w' := by
  obtain ⟨t, v, step, h⟩ := bind_ok h
  have reads := read_ok step (atEnd_of_type shown notEof)
  exact ⟨t, v, (Window.reads_singleton.1 reads).2.1 ▸ shown, reads, h⟩

/-- A token that was expected has its type. -/
theorem expect_ok {type : TokenType} {message : String} {t : Token}
    (h : expect type message w = .ok t w') : w.Reads [t] w' ∧ t.type = type := by
  rw [expect, peek_bind] at h
  split at h
  · simp [blame] at h
  · rename_i start
    split at h
    · have reads := read_ok h (by simpa [Window.atEnd] using start)
      refine ⟨reads, ?_⟩
      rw [← (Window.reads_singleton.1 reads).2.1]
      simpa using ‹(w.current.type == type) = true›
    · simp [blame] at h

/-- A token of the expected type is read. -/
theorem expect_of_reads {type : TokenType} {t : Token} (h : w.Reads [t] w') (same : t.type = type)
    (message : String) : expect type message w = .ok t w' := by
  obtain ⟨start, shown, -⟩ := Window.reads_singleton.1 h
  have notEof : w.current.isEof = false := start
  rw [expect, peek_bind, notEof, shown, same]
  simpa using read_of_reads h

/-- The end is never expected. -/
theorem expect_of_atEnd {type : TokenType} {message : String} (h : w.atEnd = true) :
    expect type message w =
      .error (.broken ⟨.unexpectedEnd (.type type) message, w.current⟩) w := by
  rw [expect, peek_bind, if_pos (show w.current.isEof = true from h)]
  rfl

/-- A token of another type than the expected one is blamed. -/
theorem expect_of_ne {type : TokenType} {message : String} (start : w.atEnd = false)
    (other : w.current.type ≠ type) : expect type message w =
      .error (.broken ⟨.unexpectedToken (.type type) message, w.current⟩) w := by
  have notEof : w.current.isEof = false := start
  rw [expect, peek_bind, notEof, beq_false_of_ne other]
  rfl

/-- What `accept` gives: a token of one of its types, or nothing where another one comes. -/
theorem accept_ok {types : List TokenType} {o : Option Token} (h : accept types w = .ok o w')
    (notEof : TokenType.eof ∉ types) :
    (o = none ∧ w' = w ∧ w.current.type ∉ types) ∨
      ∃ t, o = some t ∧ t.type ∈ types ∧ w.Reads [t] w' := by
  rw [accept, peek_bind] at h
  split at h
  · rename_i found
    obtain ⟨t, step, rfl⟩ := map_ok h
    have found : w.current.type ∈ types := by simpa using found
    have reads := read_ok step (atEnd_of_type rfl (fun e => notEof (e ▸ found)))
    exact .inr ⟨t, rfl, (Window.reads_singleton.1 reads).2.1 ▸ found, reads⟩
  · rename_i other
    obtain ⟨rfl, rfl⟩ := pure_ok h
    exact .inl ⟨rfl, rfl, by simpa using other⟩

/-- A token of one of its types is accepted. -/
theorem accept_of_reads {types : List TokenType} {t : Token} (h : w.Reads [t] w')
    (found : t.type ∈ types) : accept types w = .ok (some t) w' := by
  obtain ⟨-, shown, -⟩ := Window.reads_singleton.1 h
  rw [accept, peek_bind, shown]
  simp only [List.contains_eq_mem, found, decide_true, ↓reduceIte]
  exact map_of_ok (read_of_reads h)

/-- A token of another type is left. -/
theorem accept_of_not_mem {types : List TokenType} (h : w.current.type ∉ types) :
    accept types w = .ok none w := by
  rw [accept, peek_bind]
  simp only [List.contains_eq_mem, h, decide_false, Bool.false_eq_true, ↓reduceIte]
  rfl

/-- A rule that blames a token does not succeed. -/
theorem fail_ne_ok {cause : SyntaxCause} {a : α} : (fail cause : Rule α) w ≠ .ok a w' := by
  simp [fail, peek_bind, blame]

/-! ## Loops -/

/-- What a loop makes of the tokens that it reads is related to them, if the relation holds of no
tokens and is kept when a turn is put in front. -/
theorem sound_loop {turn : σ → Rule (Option σ)} (I : σ → List Token → σ → Prop)
    (stay : ∀ s, I s [] s)
    (stop : ∀ ⦃s w w'⦄, turn s w = .ok none w' → ∃ ts, w.Reads ts w' ∧ I s ts s)
    (go : ∀ ⦃s w s' w'⦄, turn s w = .ok (some s') w' →
      ∃ ts, w.Reads ts w' ∧ ∀ us s'', I s' us s'' → I s (ts ++ us) s'') (s : σ) :
    Sound (loop turn s) (I s) := by
  have driven : ∀ clock s w s' w', loopFor turn clock s w = .ok s' w' →
      ∃ ts, w.Reads ts w' ∧ I s ts s' := by
    intro clock
    -- By induction on the clock, from the last turn: a turn is put in front of the tokens of the
    -- others.
    induction clock with
    | nil =>
      intro s w s' w' h
      obtain ⟨rfl, rfl⟩ := pure_ok h
      exact ⟨[], .refl _, stay _⟩
    | cons _ clock ih =>
      intro s w s' w' h
      rw [loopFor, bind_turn] at h
      split at h
      · rename_i s₁ v on
        obtain ⟨ts, reads, keep⟩ := go on
        obtain ⟨us, reads', rest⟩ := ih _ _ _ _ h
        exact ⟨ts ++ us, reads.append reads', keep _ _ rest⟩
      · rename_i v done
        simp only [EStateM.Result.ok.injEq] at h
        obtain ⟨rfl, rfl⟩ := h
        exact stop done
      · simp at h
  exact fun w s' w' h => driven _ _ _ _ _ h

/-- A turn that goes on, reading tokens, is a turn of the loop. -/
theorem loop_go {turn : σ → Rule (Option σ)} (reads : Reads turn) {s s' : σ}
    (h : turn s w = .ok (some s') w') : loop turn s w = loop turn s' w' := by
  rw [loop_eq reads, bind_of_ok h]

/-- A turn that gives no further state ends the loop. -/
theorem loop_stop {turn : σ → Rule (Option σ)} (reads : Reads turn) {s : σ}
    (h : turn s w = .ok none w') : loop turn s w = .ok s w' := by
  rw [loop_eq reads, bind_of_ok h]
  rfl

/-- Turns that read at least one token whenever they go on. -/
theorem reads_of_ne_nil {turn : σ → Rule (Option σ)}
    (h : ∀ ⦃s w s' w'⦄, turn s w = .ok (some s') w' → ∃ ts, w.Reads ts w' ∧ ts ≠ []) :
    Reads turn := by
  intro s w s' w' step
  obtain ⟨ts, reads, some⟩ := h step
  exact reads.unread_lt some

end Lox.Rule
