import Lox.Proofs.Rule.Outcome
import Lox.Proofs.Tree.Erased

/-!
# Rules do not look at lines

What a rule does over tokens without lines is what it does over the tokens with their lines, once
the lines are removed from all that comes of it: the value, the window behind it and the token to
blame. `Blind` says so of a rule, given how the lines are removed from its value. As the values that
a rule goes on with lose their lines too, it is said of two rules, the second of which goes on
without lines; for a rule that depends on no value both are the same.
-/

namespace Lox

/-- An error whose token has no line. -/
def SyntaxError.erased (e : SyntaxError) : SyntaxError := { e with found := e.found.erased }

/-- An interruption whose token has no line. A fault of the text keeps its line. -/
def Interrupt.erased : Interrupt → Interrupt
  | broken e => .broken e.erased
  | fault e => .fault e

/-- A feed whose tokens have no lines. -/
def Feed.erased (f : Feed) : Feed := { f with tokens := f.tokens.map Token.erased }

namespace Window

/-- A window over tokens without lines. -/
def erased (w : Window) : Window :=
  { w with
    previous := w.previous.map Token.erased
    current := w.current.erased
    next := w.next.erased
    feed := w.feed.erased }

/-- Where the end is does not show in lines. -/
@[simp] theorem atEnd_erased (w : Window) : w.erased.atEnd = w.atEnd := rfl

/-- A token is drawn without its line from a feed without lines. -/
theorem pull_erased (f : Feed) :
    f.erased.pull = (f.pull.1.map Token.erased, f.pull.2.erased) := by
  obtain ⟨tokens, fault⟩ := f
  cases tokens <;> cases fault <;> rfl

/-- A window over tokens without lines goes on as the one with their lines does. -/
theorem advanced_erased (w : Window) :
    w.erased.advanced = (w.advanced.1, w.advanced.2.erased) := by
  have last : w.erased.next.isEof = w.next.isEof := rfl
  have moved : w.erased.moved = w.moved.erased := rfl
  rw [advanced, advanced, atEnd_erased]
  cases w.atEnd with
  | true => rfl
  | false =>
    simp only [Bool.false_eq_true, ↓reduceIte, shifted, last, moved]
    cases w.next.isEof with
    | true => rfl
    | false =>
      have drawn : w.erased.feed.pull = (w.feed.pull.1.map Token.erased, w.feed.pull.2.erased) :=
        pull_erased w.feed
      rw [drawn]
      obtain ⟨t, f⟩ := w.feed.pull
      cases t <;> rfl

end Window

namespace Rule

variable {α β σ : Type}

/-- What comes of a rule, without lines. -/
def erasedResult (view : α → α) :
    EStateM.Result Interrupt Window α → EStateM.Result Interrupt Window α
  | .ok a w => .ok (view a) w.erased
  | .error e w => .error e.erased w.erased

/-- The second rule does over tokens without lines what the first one does over the tokens with
their lines, but for lines. -/
def Blind (view : α → α) (r r' : Rule α) : Prop := ∀ w, r' w.erased = erasedResult view (r w)

variable {view : α → α} {viewβ : β → β} {viewσ : σ → σ} {r r' : Rule α}

/-- A result that is given without reading. -/
theorem Blind.pure {a b : α} (eq : b = view a) : Blind view (Pure.pure a) (Pure.pure b) := by
  intro w
  rw [eq]
  rfl

/-- A sequence does not look at lines if its parts do not. -/
theorem Blind.bind {f f' : α → Rule β} (h : Blind view r r')
    (next : ∀ a, Blind viewβ (f a) (f' (view a))) : Blind viewβ (r >>= f) (r' >>= f') := by
  intro w
  have first := h w
  cases found : r w with
  | ok a v =>
    rw [found] at first
    rw [bind_of_ok first, bind_of_ok found]
    exact next a v
  | error e v =>
    -- The first part breaks off in both, and the second one is not come to.
    rw [found] at first
    rw [bind_of_error first, bind_of_error found]
    rfl

/-- A result that is changed. -/
theorem Blind.map {f f' : α → β} (h : Blind view r r') (eq : ∀ a, f' (view a) = viewβ (f a)) :
    Blind viewβ (f <$> r) (f' <$> r') := by
  rw [map_eq_pure_bind, map_eq_pure_bind]
  exact h.bind fun a => .pure (eq a)

/-- Looking at the token to be read. -/
theorem blind_peek : Blind Token.erased peek peek := fun _ => rfl

/-- Reading a token. -/
theorem blind_read : Blind Token.erased read read := by
  intro w
  rw [read_eq, read_eq, w.advanced_erased]
  cases w.advanced with
  | mk met w' => cases met <;> rfl

/-- Blaming a token. -/
theorem blind_blame (cause : SyntaxCause) (t : Token) :
    Blind view (blame cause t) (blame cause t.erased) := fun _ => rfl

/-- Blaming the token to be read. -/
theorem blind_fail (cause : SyntaxCause) : Blind view (fail cause) (fail cause) :=
  blind_peek.bind (blind_blame cause)

/-- Asking for the type of the token to be read. -/
theorem blind_comes (type : TokenType) : Blind id (comes type) (comes type) :=
  blind_peek.bind fun _ => .pure rfl

/-- Reading a token of some types. -/
theorem blind_accept (types : List TokenType) :
    Blind (Option.map Token.erased) (accept types) (accept types) := by
  refine blind_peek.bind fun t => ?_
  rw [Token.erased_type]
  split
  · exact blind_read.map fun _ => rfl
  · exact .pure rfl

/-- Reading a token of an expected type. -/
theorem blind_expect (type : TokenType) (message : String) :
    Blind Token.erased (expect type message) (expect type message) := by
  refine blind_peek.bind fun t => ?_
  have same : t.erased.isEof = t.isEof := rfl
  rw [Token.erased_type, same]
  split
  · exact blind_blame _ t
  · split
    · exact blind_read
    · exact blind_blame _ t

/-- A loop does not look at lines if its turns do not. -/
theorem Blind.loop {turn turn' : σ → Rule (Option σ)}
    (h : ∀ s, Blind (Option.map viewσ) (turn s) (turn' (viewσ s))) (s : σ) :
    Blind viewσ (loop turn s) (loop turn' (viewσ s)) := by
  -- The clocks are equally long, and what stands on them does not matter.
  have driven : ∀ clock s,
      Blind viewσ (loopFor turn clock s) (loopFor turn' (clock.map Token.erased) (viewσ s)) := by
    intro clock
    induction clock with
    | nil => exact fun s => .pure rfl
    | cons _ clock ih =>
      refine fun s => (h s).bind fun next => ?_
      cases next with
      | none => exact .pure rfl
      | some s' => exact ih s'
  exact fun w => driven w.clock s w

end Rule

end Lox
