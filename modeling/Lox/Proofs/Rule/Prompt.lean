import Lox.Proofs.Grammar.Else
import Lox.Proofs.Rule.Outcome

/-!
# Errors at the earliest token

A rule that reads the words of a phrase is prompt at a site if it notices at once that its tokens
are no longer those of the site. `Prompt p P w o` says so of an outcome `o` from a window `w` on. If
the rule has succeeded, then it has read a word of the phrase, and no other word of the site agrees
with the tokens that were read and the next one. If it breaks off because a token does not fit, then
it blames the next token; what was read can be completed to a word of the phrase, and no word of the
site agrees with it and the next token.

Promptness is kept by all that rules are put together with. What has to be checked where two parts
meet is only that the first one is prompt before any type of token that the second one may start
with, and a site knows these types.
-/

namespace Lox

open Ebnf

/-- The types of the tokens in a row. -/
def typesOf (ts : List Token) : Word := ts.map (·.type)

@[simp] theorem typesOf_nil : typesOf [] = [] := rfl

@[simp] theorem typesOf_cons (t : Token) (ts : List Token) :
    typesOf (t :: ts) = t.type :: typesOf ts := rfl

@[simp] theorem typesOf_append (ts us : List Token) :
    typesOf (ts ++ us) = typesOf ts ++ typesOf us := List.map_append

/-- Reading starts with the token that is shown, which is the one after the tokens if there are
none. -/
theorem Window.Reads.headD_typesOf {w w' : Window} {ts : List Token} (h : w.Reads ts w') :
    (typesOf ts).headD w'.current.type = w.current.type := by
  cases ts with
  | nil => rw [reads_nil.1 h]; rfl
  | cons t ts => rw [(reads_cons.1 h).2.1]; rfl

namespace Ebnf

/-- The types `c` and then `t` agree with a word that is followed by `f`, as far as both go. -/
def Agrees (c : Word) (t : TokenType) (u : Word) (f : TokenType) : Prop :=
  ∃ z, c ++ [t] <+: u ++ f :: z

variable {c d u v : Word} {t f : TokenType}

/-- What comes next decides how a word and what follows it start. -/
theorem append_cons_eq (u : Word) (f : TokenType) (z : Word) :
    ∃ z', u ++ f :: z = u.headD f :: z' := by
  cases u with
  | nil => exact ⟨z, rfl⟩
  | cons t u => exact ⟨u ++ f :: z, rfl⟩

/-- What agrees starts alike. -/
theorem Agrees.headD_eq (h : Agrees c t u f) : u.headD f = c.headD t := by
  obtain ⟨z, r, eq⟩ := h
  -- Both rows are cut behind their first type.
  obtain ⟨z', next⟩ := append_cons_eq u f z
  obtain ⟨r', next'⟩ := append_cons_eq c t r
  rw [List.append_assoc, List.singleton_append, next, next'] at eq
  exact (List.cons.inj eq).1.symm

/-- What agrees does so up to any place in both. -/
theorem Agrees.cut (h : Agrees (c ++ d) t (u ++ v) f) : Agrees c (d.headD t) u (v.headD f) := by
  obtain ⟨z, r, eq⟩ := h
  obtain ⟨z', next⟩ := append_cons_eq v f z
  obtain ⟨r', next'⟩ := append_cons_eq d t r
  refine ⟨z', r', ?_⟩
  rw [List.append_assoc, List.append_assoc, List.append_assoc, List.singleton_append, next,
    next'] at eq
  rw [List.append_assoc, List.singleton_append, eq]

/-- What agrees does so behind a common part. -/
theorem Agrees.drop (h : Agrees (c ++ d) t (c ++ v) f) : Agrees d t v f := by
  obtain ⟨z, starts⟩ := h
  rw [List.append_assoc, List.append_assoc, List.prefix_append_right_inj] at starts
  exact ⟨z, starts⟩

end Ebnf

namespace Rule

variable {α β σ : Type} {w : Window} {o : EStateM.Result Interrupt Window α} {p q : Phrase}
  {P Q R : Site} {F G : List TokenType}

/-- The codes of the errors that say that a token does not fit. -/
def misfits : List String := ["P001", "P005", "P010"]

/-- An outcome of reading a phrase at a site, from a window on, that is prompt. Errors of another
kind than those that say that a token does not fit are not looked at. -/
inductive Prompt (p : Phrase) (P : Site) (w : Window) : EStateM.Result Interrupt Window α → Prop
  | ok {a : α} {w' : Window} {ts : List Token} :
    w.Reads ts w' → Derives p (typesOf ts) →
    (∀ ⦃u f⦄, P.allows u f → Agrees (typesOf ts) w'.current.type u f → u = typesOf ts) →
    Prompt p P w (.ok a w')
  | misfit {cause : SyntaxCause} {w' : Window} {ts : List Token} :
    w.Reads ts w' → (∃ z, Derives p (typesOf ts ++ z)) →
    (∀ ⦃u f⦄, P.allows u f → ¬ Agrees (typesOf ts) w'.current.type u f) →
    Prompt p P w (.error (.broken ⟨cause, w'.current⟩) w')
  | other {e : SyntaxError} {w' : Window} :
    e.cause.code ∉ misfits → Prompt p P w (.error (.broken e) w')
  | fault {e : LexicalError} {w' : Window} : Prompt p P w (.error (.fault e) w')

/-- A rule that reads a phrase at a site is prompt, wherever it starts. -/
def Promptly (p : Phrase) (P : Site) (r : Rule α) : Prop := ∀ w, Prompt p P w (r w)

/-! ## Sites and phrases -/

/-- A prompt outcome is one also for a phrase with more words, at a site with fewer words that start
with the token that is shown. -/
theorem Prompt.weaken (h : Prompt p P w o) (sub : ∀ ⦃u⦄, Derives p u → Derives q u)
    (only : ∀ ⦃u f⦄, Q.allows u f → u.headD f = w.current.type → P.allows u f) :
    Prompt q Q w o := by
  -- Only words that start with the token that is shown can agree, and those are words of the first
  -- site.
  cases h with
  | ok reads derives unique =>
    refine .ok reads (sub derives) fun u f allowed agrees => ?_
    exact unique (only allowed (agrees.headD_eq.trans reads.headD_typesOf)) agrees
  | misfit reads completes none =>
    refine .misfit reads (completes.imp fun z => @sub _) fun u f allowed agrees => ?_
    exact none (only allowed (agrees.headD_eq.trans reads.headD_typesOf)) agrees
  | other code => exact .other code
  | fault => exact .fault

/-- An outcome that is prompt for a phrase is so for any phrase with the same words. -/
theorem Prompt.congr (h : Prompt p (before p G) w o)
    (same : ∀ u, Derives q u ↔ Derives p u) (fewer : ∀ t ∈ F, t ∈ G := by exact fun _ => id) :
    Prompt q (before q F) w o :=
  h.weaken (fun u => (same u).2) fun u f allowed _ => by
    obtain ⟨derives, mem⟩ := allows_before.1 allowed
    exact allows_before.2 ⟨(same u).1 derives, fewer f mem⟩

/-- An outcome that is prompt before some types is so before fewer. -/
theorem Prompt.mono (h : Prompt p (before p G) w o) (fewer : ∀ t ∈ F, t ∈ G := by decide) :
    Prompt p (before p F) w o :=
  h.congr (fun _ => .rfl) fewer

/-- An outcome for the right side of a production. -/
theorem Prompt.symbol {s : Symbol} (h : Prompt (production s) (before (production s) F) w o) :
    Prompt (.symbol s) (before (.symbol s) F) w o :=
  h.congr fun _ => derives_symbol

/-- An outcome for a row, one phrase after the other. -/
theorem Prompt.row {ps : List Phrase} (h : Prompt (Phrase.row ps) (within ps (stop F)) w o) :
    Prompt (Phrase.row ps) (before (Phrase.row ps) F) w o :=
  h.weaken (fun _ => id) fun _ _ allowed _ => allows_within_stop.2 (allows_before.1 allowed)

/-- A rule for the right side of a production. -/
theorem Promptly.symbol {r : Rule α} (s : Symbol)
    (h : Promptly (production s) (before (production s) F) r) :
    Promptly (.symbol s) (before (.symbol s) F) r := fun w => (h w).symbol

/-- A rule for a row, one phrase after the other. -/
theorem Promptly.row {r : Rule α} {ps : List Phrase}
    (h : Promptly (Phrase.row ps) (within ps (stop F)) r) :
    Promptly (Phrase.row ps) (before (Phrase.row ps) F) r := fun w => (h w).row

/-- An outcome for the rest of a row. -/
theorem Prompt.rest {ps : List Phrase}
    (h : Prompt (Phrase.row ps) (before (Phrase.row ps) F) w o) :
    Prompt (Phrase.row ps) (within ps (stop F)) w o :=
  h.weaken (fun _ => id) fun _ _ allowed _ => allows_before.2 (allows_within_stop.1 allowed)

/-- An outcome for a row of one phrase. -/
theorem Prompt.single (h : Prompt (Phrase.row [p]) P w o) : Prompt p P w o :=
  h.weaken (fun _ => derives_row_singleton.1) fun _ _ allowed _ => allowed

/-- An outcome for the last phrase of a row. -/
theorem Prompt.last (h : Prompt p P w o) : Prompt (Phrase.row [p]) P w o :=
  h.weaken (fun _ => derives_row_singleton.2) fun _ _ allowed _ => allowed

/-- Where what may come first differs between some sites, the token that is shown tells which of
them it is. -/
theorem Prompt.choose {ι : Type} (site : ι → Site) {choices : List ι} {i : ι}
    (h : Prompt p (site i) w o) (sub : ∀ ⦃u⦄, Derives p u → Derives q u)
    (cover : ∀ ⦃u f⦄, Q.allows u f → ∃ j ∈ choices, (site j).allows u f)
    (only : ∀ j ∈ choices, w.current.type ∈ (site j).starters → j = i) : Prompt q Q w o :=
  h.weaken sub fun u f allowed head => by
    obtain ⟨j, mem, here⟩ := cover allowed
    have starts := (site j).starts here
    rw [head] at starts
    exact only j mem starts ▸ here

/-- One of several phrases, told by the token that is shown. -/
theorem Prompt.anyOf {ps : List Phrase} (h : Prompt p (before p F) w o) (mem : p ∈ ps)
    (only : ∀ q ∈ ps, w.current.type ∈ q.ahead F → q = p) :
    Prompt (Phrase.anyOf ps) (before (Phrase.anyOf ps) F) w o :=
  Prompt.choose (fun q => before q F) h (fun u derives => derives_anyOf.2 ⟨p, mem, derives⟩)
    (fun u f allowed => by
      obtain ⟨derives, last⟩ := allows_before.1 allowed
      obtain ⟨q, mem, derives⟩ := derives_anyOf.1 derives
      exact ⟨q, mem, allows_before.2 ⟨derives, last⟩⟩)
    only

/-! ## Sequences -/

/-- The words of a site fall in two, one for each of two sites. -/
def Splits (R P Q : Site) : Prop :=
  ∀ ⦃u t⦄, R.allows u t → ∃ x y, u = x ++ y ∧ P.allows x (y.headD t) ∧ Q.allows y t

/-- If what the first part has read is the only word that agrees, then all words of the whole that
agree start with it, and they go on with words that agree with what the second part has read. -/
theorem Splits.rest_agrees {ts us : List Token} {v w' : Window} {u : Word} {t : TokenType}
    (split : Splits R P Q)
    (unique : ∀ ⦃x f⦄, P.allows x f → Agrees (typesOf ts) v.current.type x f → x = typesOf ts)
    (reads : v.Reads us w') (allowed : R.allows u t)
    (agrees : Agrees (typesOf (ts ++ us)) w'.current.type u t) :
    ∃ y, u = typesOf ts ++ y ∧ Q.allows y t ∧ Agrees (typesOf us) w'.current.type y t := by
  -- The front part of the word agrees up to the place where the second part starts, and so it is
  -- what was read there.
  obtain ⟨x, y, rfl, one, two⟩ := split allowed
  rw [typesOf_append] at agrees
  have front := agrees.cut
  rw [reads.headD_typesOf] at front
  obtain rfl := unique one front
  exact ⟨y, rfl, two, agrees.drop⟩

/-- Two parts after each other, where the words of the site fall in two. -/
theorem Prompt.bind {r : Rule α} {f : α → Rule β} (h : Prompt p P w (r w))
    (next : ∀ ⦃a v⦄, r w = .ok a v → Prompt q Q v (f a v)) (lives : ∃ z, Derives q z)
    (split : Splits R P Q) : Prompt (.seq p q) R w ((r >>= f) w) := by
  generalize first : r w = o at h
  cases h with
  | @ok a v ts reads derives unique =>
    have second := next first
    rw [bind_of_ok first]
    generalize f a v = o at second
    -- The first part has succeeded, and the outcome is that of the second part behind it.
    cases second with
    | ok reads' derives' unique' =>
      refine .ok (reads.append reads') ?_ fun u t allowed agrees => ?_
      · rw [typesOf_append]
        exact .seq derives derives'
      · obtain ⟨y, rfl, allowed, agrees⟩ := split.rest_agrees unique reads' allowed agrees
        rw [typesOf_append, unique' allowed agrees]
    | misfit reads' completes none =>
      refine .misfit (reads.append reads') ?_ fun u t allowed agrees => ?_
      · obtain ⟨z, derives'⟩ := completes
        refine ⟨z, ?_⟩
        rw [typesOf_append, List.append_assoc]
        exact .seq derives derives'
      · obtain ⟨y, rfl, allowed, agrees⟩ := split.rest_agrees unique reads' allowed agrees
        exact none allowed agrees
    | other code => exact .other code
    | fault => exact .fault
  | @misfit cause w' ts reads completes none =>
    rw [bind_of_error first]
    refine .misfit reads ?_ fun u t allowed agrees => ?_
    · -- The second part has some word, which completes what the first one lacks.
      obtain ⟨z, derives⟩ := completes
      obtain ⟨z', derives'⟩ := lives
      refine ⟨z ++ z', ?_⟩
      rw [← List.append_assoc]
      exact .seq derives derives'
    · obtain ⟨x, y, rfl, one, -⟩ := split allowed
      have front : Agrees (typesOf ts) w'.current.type x (y.headD t) :=
        Agrees.cut (d := []) (by rwa [List.append_nil])
      exact none one front
  | other code =>
    rw [bind_of_error first]
    exact .other code
  | fault =>
    rw [bind_of_error first]
    exact .fault

/-- A phrase and then a site, if the rule for the phrase is prompt before all that may come first
there. -/
theorem Prompt.then {r : Rule α} {f : α → Rule β} (h : Prompt p (before p G) w (r w))
    (next : ∀ ⦃a v⦄, r w = .ok a v → Prompt q Q v (f a v))
    (cover : ∀ t ∈ Q.starters, t ∈ G := by decide)
    (lives : q.hasWords (fun _ => true) = true := by decide) :
    Prompt (.seq p q) (andThen p Q) w ((r >>= f) w) := by
  refine h.bind next (exists_derives lives) fun u t allowed => ?_
  obtain ⟨x, y, rfl, derives, rest⟩ := allowed
  exact ⟨x, y, rfl, allows_before.2 ⟨derives, cover _ (Q.starts rest)⟩, rest⟩

/-- A phrase and then a site, wherever the rule starts. -/
theorem Promptly.bind {r : Rule α} {f : α → Rule β} (h : Promptly p (before p G) r)
    (next : ∀ a, Promptly q Q (f a)) (cover : ∀ t ∈ Q.starters, t ∈ G := by decide)
    (lives : q.hasWords (fun _ => true) = true := by decide) :
    Promptly (.seq p q) (andThen p Q) (r >>= f) := fun w =>
  (h w).then (fun a v _ => next a v) cover lives

/-- A rule that reads nothing more at the end of a row. -/
theorem promptly_pure (a : α) : Promptly .empty (stop F) (pure a : Rule α) := fun w =>
  .ok (.refl w) .empty fun _ _ allowed _ => allowed.1

/-- A rule that reads nothing, where the token that is shown does not start the phrase. -/
theorem prompt_pure (a : α) (none : Derives p []) (other : w.current.type ∉ p.starters) :
    Prompt p (before p F) w ((pure a : Rule α) w) := by
  refine .ok (.refl w) none fun u f allowed agrees => ?_
  have head : u.headD f = w.current.type := agrees.headD_eq
  -- A word that is not empty would start with the token that is shown.
  cases u with
  | nil => rfl
  | cons t u =>
    have starts := mem_starters_of_derives (allows_before.1 allowed).1
    exact absurd (head ▸ starts) other

/-- A result that is changed. -/
theorem Promptly.map {r : Rule α} (h : Promptly p P r) (f : α → β) : Promptly p P (f <$> r) := by
  intro w
  have outcome := h w
  simp only [Functor.map, EStateM.map]
  generalize r w = o at outcome
  cases outcome with
  | ok reads derives unique => exact .ok reads derives unique
  | misfit reads completes none => exact .misfit reads completes none
  | other code => exact .other code
  | fault => exact .fault

/-- A rule that is prompt has read some tokens when it succeeds. -/
theorem Promptly.sound {r : Rule α} (h : Promptly p P r) : Sound r fun _ _ => True := by
  intro w a w' ok
  have outcome := h w
  rw [ok] at outcome
  cases outcome with
  | ok reads => exact ⟨_, reads, trivial⟩

/-! ## Single tokens -/

/-- Blaming the token that is shown, which may not come first. -/
theorem prompt_fail {cause : SyntaxCause} (lives : ∃ z, Derives p z)
    (not : w.current.type ∉ P.starters) : Prompt p P w ((fail cause : Rule α) w) := by
  refine .misfit (.refl w) lives fun u f allowed agrees => not ?_
  have starts := P.starts allowed
  rwa [agrees.headD_eq] at starts

/-- Blaming any token for something else than that it does not fit. -/
theorem prompt_blame {cause : SyntaxCause} {t : Token} (code : cause.code ∉ misfits) :
    Prompt p P w ((blame cause t : Rule α) w) := .other code

/-- A rule that is not allowed any level of nesting. -/
theorem promptly_tooDeep (limit : Int) : Promptly p P (fail (.tooDeep limit) : Rule α) :=
  fun _ => prompt_blame (show "P007" ∉ misfits by decide)

/-- Reading the token that is shown. -/
theorem prompt_read {types : List TokenType} (shown : w.current.type ∈ types)
    (notEof : .eof ∉ types) : Prompt (.oneOf types) (before (.oneOf types) F) w (read w) := by
  have start : w.atEnd = false := atEnd_of_type rfl fun eof => notEof (eof ▸ shown)
  cases step : w.advanced with
  | mk met w' =>
    rw [read_eq, step]
    cases met with
    | some e => exact .fault
    | none =>
      refine .ok (Window.reads_singleton.2 ⟨start, rfl, step⟩) (.oneOf shown) ?_
      intro u f allowed agrees
      obtain ⟨t, -, rfl⟩ := derives_oneOf.1 (allows_before.1 allowed).1
      exact congrArg (fun t => [t]) agrees.headD_eq

/-- A token of an expected type. -/
theorem promptly_expect (type : TokenType) (message : String) (notEof : type ≠ .eof := by decide) :
    Promptly (.token type) (before (.token type) F) (expect type message) := by
  intro w
  rw [expect, peek_bind]
  have wrong : ∀ cause, w.current.type ≠ type →
      Prompt (.token type) (before (.token type) F) w
        ((blame cause w.current : Rule Token) w) := fun cause other =>
    prompt_fail ⟨[type], derives_token.2 rfl⟩ fun starts => other (List.mem_singleton.1 starts)
  -- The end is an error of its own, and it is not of the type that is expected.
  split
  · rename_i last
    refine wrong _ fun same => notEof ?_
    rw [← same]
    simpa [Token.isEof] using last
  · split
    · rename_i same
      exact prompt_read (by simpa using same) (by simpa using notEof.symm)
    · rename_i other
      exact wrong _ (by simpa using other)

/-- A token of an expected type, whatever comes behind it. -/
theorem promptly_expect_bind {f : Token → Rule β} {type : TokenType} {message : String}
    (next : ∀ t, Promptly q Q (f t)) (notEof : type ≠ .eof := by decide)
    (lives : q.hasWords (fun _ => true) = true := by decide) :
    Promptly (.seq (.token type) q) (andThen (.token type) Q) (expect type message >>= f) :=
  (promptly_expect type message notEof).bind next (fun _ => id) lives

/-- A token whose type is known, whatever comes behind it. -/
theorem Prompt.read_bind {f : Token → Rule β} {types : List TokenType}
    (shown : w.current.type ∈ types)
    (next : ∀ ⦃t v⦄, w.Reads [t] v → Prompt q Q v (f t v)) (notEof : .eof ∉ types := by decide)
    (lives : q.hasWords (fun _ => true) = true := by decide) :
    Prompt (.seq (.oneOf types) q) (andThen (.oneOf types) Q) w ((read >>= f) w) := by
  have start : w.atEnd = false := atEnd_of_type rfl fun eof => notEof (eof ▸ shown)
  exact (prompt_read shown notEof).then (fun t v step => next (read_ok step start)) (fun _ => id)
    lives

/-! ## Looking ahead -/

/-- Accepting a token of some types is reading it where one of them is shown. -/
theorem accept_bind_of_mem {types : List TokenType} {f : Option Token → Rule β}
    (shown : w.current.type ∈ types) :
    (accept types >>= f) w = (read >>= fun t => f (some t)) w := by
  simp only [accept, bind_assoc]
  rw [peek_bind]
  simp [shown]

/-- Accepting a token of some types is nothing where another one is shown. -/
theorem accept_bind_of_not_mem {types : List TokenType} {f : Option Token → Rule β}
    (other : w.current.type ∉ types) : (accept types >>= f) w = f none w :=
  bind_of_ok (accept_of_not_mem other)

/-- A part that is announced by a token of some types and may be left out. -/
theorem Prompt.guarded (types : List TokenType) {f : Option Token → Rule β} {b : β}
    (taken : ∀ ⦃t v⦄, w.Reads [t] v → Prompt p (before p F) v (f (some t) v))
    (idle : f none = pure b) (apart : ∀ t ∈ types, t ∉ F) (notEof : .eof ∉ types := by decide)
    (lives : p.hasWords (fun _ => true) = true := by decide) :
    Prompt (.maybe (.seq (.oneOf types) p)) (before (.maybe (.seq (.oneOf types) p)) F) w
      ((accept types >>= f) w) := by
  -- The token that is shown tells whether the part comes, since what comes behind it starts
  -- otherwise.
  by_cases shown : w.current.type ∈ types
  · rw [accept_bind_of_mem shown]
    refine (Prompt.read_bind shown taken notEof lives).weaken (fun _ => .some) ?_
    intro u t allowed head
    obtain ⟨derives, mem⟩ := allows_before.1 allowed
    rcases derives_maybe.1 derives with rfl | derives
    · exact absurd mem (apart t ((show t = _ from head) ▸ shown))
    · obtain ⟨x, y, rfl, one, two⟩ := derives_seq.1 derives
      exact ⟨x, y, rfl, one, allows_before.2 ⟨two, mem⟩⟩
  · rw [accept_bind_of_not_mem shown, idle]
    exact prompt_pure b .none shown

/-- A part that is read unless a token of some type comes. -/
theorem Prompt.unless {type : TokenType} {r r' : Rule β} {b : β}
    (other : Prompt p (before p [type]) w (r w)) (idle : r' = pure b)
    (apart : type ∉ p.starters := by decide) :
    Prompt (.maybe p) (before (.maybe p) [type]) w
      ((comes type >>= fun found => if found then r' else r) w) := by
  rw [comes_bind]
  by_cases shown : w.current.type = type
  · rw [shown, beq_self_eq_true, if_pos rfl, idle]
    exact prompt_pure b .none (shown ▸ apart)
  · rw [beq_false_of_ne shown]
    refine other.weaken (fun _ => .some) fun u t allowed head => ?_
    obtain ⟨derives, mem⟩ := allows_before.1 allowed
    rcases derives_maybe.1 derives with rfl | derives
    · exact absurd (head.symm.trans (List.mem_singleton.1 mem)) shown
    · exact allows_before.2 ⟨derives, mem⟩

/-! ## Loops -/

/-- A loop whose turns read an item each, where the token that is shown tells whether one comes. -/
theorem promptly_loop {turn : σ → Rule (Option σ)} (goes : TokenType → Bool)
    (stays : ∀ s w, goes w.current.type = false → turn s w = .ok none w)
    (runs : ∀ s w, goes w.current.type = true → ∃ body : Rule σ, turn s w = (some <$> body) w ∧
      Prompt p (before p (p.starters ++ F)) w (body w))
    (starts : ∀ t ∈ p.starters, goes t = true) (apart : ∀ t ∈ F, goes t = false)
    (proper : p.nullable = false) (s : σ) :
    Promptly (.many p) (before (.many p) F) (loop turn s) := by
  -- An item is not empty, so each turn reads a token.
  have reads : Reads turn := by
    intro s w s' w' step
    cases going : goes w.current.type with
    | false =>
      rw [stays s w going] at step
      cases step
    | true =>
      obtain ⟨body, same, outcome⟩ := runs s w going
      rw [same] at step
      obtain ⟨_, step, -⟩ := map_ok step
      rw [step] at outcome
      cases outcome with
      | ok reads derives =>
        have some := ne_nil_of_derives derives proper
        exact reads.unread_lt fun none => some (by rw [none, typesOf_nil])
  intro w
  -- By induction on the tokens that can still be read.
  induction n : w.unread using Nat.strongRecOn generalizing s w with
  | ind n ih =>
    cases going : goes w.current.type with
    | false =>
      rw [loop_stop reads (stays s w going)]
      exact prompt_pure s .nil fun starter => by simp [starts _ starter] at going
    | true =>
      obtain ⟨body, same, outcome⟩ := runs s w going
      -- A turn that goes on is an item and then the loop again.
      have unroll : loop turn s w = (body >>= loop turn) w := by
        rw [loop_eq reads, bind_turn, same]
        simp only [Functor.map, EStateM.map, bind, EStateM.bind]
        cases body w <;> rfl
      have further : ∀ ⦃s' v⦄, body w = .ok s' v →
          Prompt (.many p) (before (.many p) F) v (loop turn s' v) := by
        intro s' v step
        have fewer := reads s w s' v (by rw [same]; exact map_of_ok step)
        exact ih v.unread (n ▸ fewer) s' v rfl
      rw [unroll]
      refine (outcome.then further (fun t => id) rfl).weaken (fun u derives => ?_)
        fun u t allowed head => ?_
      · obtain ⟨x, y, rfl, item, more⟩ := derives_seq.1 derives
        exact .cons item more
      · obtain ⟨derives, mem⟩ := allows_before.1 allowed
        rcases derives_many.1 derives with rfl | ⟨x, y, rfl, item, more⟩
        · have same : t = w.current.type := head
          simp [← same, apart t mem] at going
        · exact ⟨x, y, rfl, item, allows_before.2 ⟨more, mem⟩⟩

/-- What may come behind the first item of a list. -/
def moreOf (item : Phrase) : List Phrase :=
  [.many (.row [.token .comma, item]), .maybe (.token .comma)]

/-- Behind an item of a list there is nothing, or a comma and behind it nothing or more items. -/
theorem derives_moreOf {item : Phrase} {u : Word} : Derives (.row (moreOf item)) u ↔
    Derives (.maybe (.seq (.token .comma) (.maybe (.seq item (.row (moreOf item)))))) u := by
  constructor
  · intro h
    obtain ⟨v, w, rfl, items, last⟩ := derives_seq.1 h
    rcases derives_many.1 items with rfl | ⟨x, y, rfl, one, more⟩
    · rcases derives_maybe.1 (derives_row_singleton.1 last) with rfl | comma
      · exact .none
      · exact .some (derives_seq.2 ⟨w, [], (List.append_nil w).symm, comma, .none⟩)
    · obtain ⟨x, z, rfl, comma, one⟩ := derives_seq.1 one
      rw [List.append_assoc, List.append_assoc]
      exact .some (.seq comma (.some (.seq (derives_row_singleton.1 one) (.seq more last))))
  · intro h
    rcases derives_maybe.1 h with rfl | h
    · exact .seq .nil (derives_row_singleton.2 .none)
    · obtain ⟨x, y, rfl, comma, h⟩ := derives_seq.1 h
      rcases derives_maybe.1 h with rfl | h
      · rw [List.append_nil]
        exact .seq .nil (derives_row_singleton.2 (.some comma))
      · obtain ⟨y, z, rfl, one, rest⟩ := derives_seq.1 h
        obtain ⟨z, v, rfl, more, last⟩ := derives_seq.1 rest
        have items : Derives (.many (.row [.token .comma, item])) ((x ++ y) ++ z) :=
          .cons (.seq comma (derives_row_singleton.2 one)) more
        exact derives_seq.2 ⟨_, v, by simp only [List.append_assoc], items, last⟩

/-- A loop that reads the rest of a list, up to a closing parenthesis. Each turn reads a comma
first, and it has to be known what a turn does behind the comma. -/
theorem promptly_list {turn : σ → Rule (Option σ)} {item : Phrase} (further : σ → Rule σ)
    (unroll : ∀ s, loop turn s = accept [.comma] >>= (·.elim (pure s) fun _ => further s))
    (h : ∀ s w, (∀ s' v, v.unread ≤ w.unread → Prompt (.row (moreOf item))
        (before (.row (moreOf item)) [.rightParen]) v (loop turn s' v)) →
      Prompt (.maybe (.seq item (.row (moreOf item))))
        (before (.maybe (.seq item (.row (moreOf item)))) [.rightParen]) w (further s w)) (s : σ) :
    Promptly (.row (moreOf item)) (before (.row (moreOf item)) [.rightParen]) (loop turn s) := by
  intro w
  -- By induction on the tokens that can still be read: a turn starts with a comma, so fewer are
  -- left behind it.
  induction n : w.unread using Nat.strongRecOn generalizing s w with
  | ind n ih =>
    have behind : ∀ ⦃t v⦄, w.Reads [t] v → Prompt (.maybe (.seq item (.row (moreOf item))))
        (before (.maybe (.seq item (.row (moreOf item)))) [.rightParen]) v (further s v) := by
      intro t v reads
      have fewer := reads.unread_lt (by simp)
      exact h s v fun s' x less => ih x.unread (by omega) s' x rfl
    rw [unroll]
    refine (Prompt.guarded [.comma] behind (b := s) rfl (by decide) (by decide)
      rfl).weaken (fun u => derives_moreOf.2) fun u t allowed head => ?_
    obtain ⟨derives, mem⟩ := allows_before.1 allowed
    exact allows_before.2 ⟨derives_moreOf.1 derives, mem⟩

end Rule

end Lox
