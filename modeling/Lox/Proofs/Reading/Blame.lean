import Lox.Proofs.Reading.Law

/-!
# Which token is blamed

A rule that breaks off blames a token that it has read or the one that it stops in front of, and
never one that is still to come. `Blames` says so of a rule. It is kept by all that rules are put
together with but for blaming itself, where the token has to be known: the only token that is blamed
after it was read is the equals sign of an assignment.
-/

namespace Lox.Rule

variable {α β σ : Type}

/-- The rule only reads, and if it breaks off, then it blames a token that it has read or the one
that it stops in front of. -/
structure Blames (r : Rule α) : Prop where
  /-- The rule reads some tokens if it succeeds. -/
  reads : Sound r fun _ _ => True
  /-- The token to blame is one of those that were read, or the next one. -/
  among : ∀ ⦃w e w'⦄, r w = .error (.broken e) w' →
    ∃ ts, w.Reads ts w' ∧ e.found ∈ ts ++ [w'.current]

/-! ## What rules are put together with -/

/-- A token that was read, or is the next one, is so also after more tokens were read before. -/
theorem mem_of_append {us ts : List Token} {t next : Token} (h : t ∈ us ++ [next]) :
    t ∈ (ts ++ us) ++ [next] := by
  rw [List.append_assoc]
  exact List.mem_append_right ts h

/-- A sequence reads what its parts read. -/
theorem sound_bind {r : Rule α} {f : α → Rule β} (h : Sound r fun _ _ => True)
    (next : ∀ a, Sound (f a) fun _ _ => True) : Sound (r >>= f) fun _ _ => True := by
  intro w b w' ok
  obtain ⟨a, v, first, second⟩ := bind_ok ok
  obtain ⟨ts, one, -⟩ := h first
  obtain ⟨us, two, -⟩ := next a second
  exact ⟨ts ++ us, one.append two, trivial⟩

/-- A sequence blames as its parts do. -/
theorem Blames.bind {r : Rule α} {f : α → Rule β} (h : Blames r) (next : ∀ a, Blames (f a)) :
    Blames (r >>= f) where
  reads := sound_bind h.reads fun a => (next a).reads
  among := by
    intro w e w' broken
    rcases bind_error broken with first | ⟨a, v, first, second⟩
    · exact h.among first
    · -- What the first part has read comes before what the second one has.
      obtain ⟨ts, one, -⟩ := h.reads first
      obtain ⟨us, two, mem⟩ := (next a).among second
      exact ⟨ts ++ us, one.append two, mem_of_append mem⟩

/-- A result that is given without reading. -/
theorem Blames.pure (a : α) : Blames (Pure.pure a : Rule α) where
  reads := (Local.pure a).sound
  among := by
    intro w e w' broken
    simp [Pure.pure, EStateM.pure] at broken

/-- A result that is changed. -/
theorem Blames.map {r : Rule α} (h : Blames r) (f : α → β) : Blames (f <$> r) := by
  rw [map_eq_pure_bind]
  exact h.bind fun a => .pure (f a)

/-- Looking at the token to be read. -/
theorem blames_peek : Blames peek where
  reads := local_peek.sound
  among := by
    intro w e w' broken
    simp [peek] at broken

/-- Blaming the token to be read. -/
theorem blames_fail (cause : SyntaxCause) : Blames (fail cause : Rule α) where
  reads := fun _ _ _ ok => absurd ok fail_ne_ok
  among := by
    intro w e w' broken
    rw [fail, peek_bind, blame] at broken
    cases broken
    exact ⟨[], .refl w, List.mem_singleton_self _⟩

/-- Reading a token blames none. -/
theorem blames_read : Blames read where
  reads := local_read.sound
  among := by
    intro w e w' broken
    rw [read_eq] at broken
    split at broken <;> cases broken

/-- Reading a token of some types. -/
theorem blames_accept (types : List TokenType) : Blames (accept types) :=
  blames_peek.bind fun t => by
    split
    · exact blames_read.map some
    · exact .pure none

/-- Reading a token of an expected type. -/
theorem blames_expect (type : TokenType) (message : String) : Blames (expect type message) where
  reads := (local_expect type message).sound
  among := by
    intro w e w' broken
    rw [expect, peek_bind] at broken
    split at broken
    · cases broken
      exact ⟨[], .refl w, List.mem_singleton_self _⟩
    · split at broken
      · exact blames_read.among broken
      · cases broken
        exact ⟨[], .refl w, List.mem_singleton_self _⟩

/-- A loop whose turns blame so. -/
theorem blames_loop {turn : σ → Rule (Option σ)} (h : ∀ s, Blames (turn s)) (s : σ) :
    Blames (loop turn s) := by
  -- No matter how long the clock runs, a loop is a row of turns.
  have driven : ∀ clock s, Blames (loopFor turn clock s) := by
    intro clock
    induction clock with
    | nil => exact fun s => .pure s
    | cons _ clock ih =>
      refine fun s => (h s).bind fun next => ?_
      cases next with
      | none => exact .pure s
      | some s' => exact ih s'
  exact ⟨fun w _ _ ok => (driven w.clock s).reads ok,
    fun w _ _ broken => (driven w.clock s).among broken⟩

/-! ## Assignments -/

/-- The right side of an assignment and what is made of it, after the equals sign was read. If
nothing can be assigned to the target, then the equals sign is to blame. -/
theorem among_of_equals {expression : Rule Expr} {target : Expr} {equals : Token} {e : SyntaxError}
    {v w w' : Window} (h : Blames expression) (read : v.Reads [equals] w)
    (broken : (expression >>= assign target equals) w = .error (.broken e) w') :
    ∃ ts, v.Reads ts w' ∧ e.found ∈ ts ++ [w'.current] := by
  rcases bind_error broken with inside | ⟨value, u, inside, last⟩
  · obtain ⟨ts, reads, mem⟩ := h.among inside
    exact ⟨[equals] ++ ts, read.append reads, mem_of_append mem⟩
  · obtain ⟨ts, reads, -⟩ := h.reads inside
    have blamed : e.found = equals ∧ w' = u := by
      cases target with
      | named | get => cases last
      | _ =>
        cases last
        exact ⟨rfl, rfl⟩
    rw [blamed.1, blamed.2]
    exact ⟨[equals] ++ ts, read.append reads, by simp⟩

/-- What comes behind the target of an assignment. `Blames.bind` stops short of the equals sign: a
rule that blames a token it is given does not blame one that it has read itself. So the rest is
followed from the equals sign on. -/
theorem blames_assigned {expression : Rule Expr} (target : Expr) (h : Blames expression) :
    Blames (assigned expression target) where
  reads := by
    refine sound_bind (blames_accept [.equal]).reads fun found => ?_
    cases found with
    | none => exact (Blames.pure target).reads
    | some equals =>
      refine sound_bind h.reads fun value => ?_
      cases target with
      | named name => exact (Blames.pure _).reads
      | get object name => exact (Blames.pure _).reads
      | _ => exact fun _ _ _ ok => nomatch ok
  among := by
    intro w e w' broken
    rcases bind_error broken with first | ⟨found, v, first, rest⟩
    · exact (blames_accept [.equal]).among first
    · rcases accept_ok first (by decide) with ⟨rfl, -⟩ | ⟨equals, rfl, -, read⟩
      · cases rest
      · exact among_of_equals h read rest

/-- To blame a token that was read, or the next one, is a law. -/
def blaming : Law where
  Holds := Blames
  sound := Blames.reads
  pure := Blames.pure
  bind := Blames.bind
  peek := blames_peek
  read := blames_read
  fail := blames_fail
  expect := blames_expect
  assigned := blames_assigned
  loop _ := blames_loop

/-- A declaration with a limit on its levels blames a token that it has read, or the next one. -/
theorem blames_declaration (limit : Int) (n : Nat) : Blames (declaration limit n) :=
  blaming.declaration limit n

end Lox.Rule
