import Lox.Program.Run
import Lox.Proofs.Reading.Law
import Lox.Proofs.Token.Shown

/-!
# One token decides a declaration

What comes of a declaration, a statement or an error, is decided by the tokens up to the one that it
ends in front of: on any two feeds that show the same up to this place it ends there with the same
result (`declaration_decided`). The one thing that can come in between is a fault at the place right
behind. A window draws the token there together with the one in front of it, before any rule looks
at either of them, so the fault comes up in place of the result.

A rule is local, so it does the same wherever it can read the same tokens. What is left to be said
is what it does where they cannot be read, because a fault comes up on the way: it does not stop
before the fault unless it stops there anyway, and so it meets the fault
(`Rule.Local.fault_of_reads`).
-/

namespace Lox

namespace Rule

open Window

variable {α : Type} {r : Rule α} {v v' w w' x y : Window} {e : LexicalError} {ts : List Token}

/-- The window that is left by a rule. -/
def after : EStateM.Result Interrupt Window α → Window
  | .ok _ w | .error _ w => w

/-- What comes of a rule, without the window. -/
def outcome : EStateM.Result Interrupt Window α → Except Interrupt α
  | .ok a _ => .ok a
  | .error e _ => .error e

/-- A rule comes to a window by itself, with a result or because of a token. -/
def Stops (r : Rule α) (w w' : Window) : Prop :=
  (∃ a, r w = .ok a w') ∨ ∃ e, r w = .error (.broken e) w'

/-- Where a rule stops is the window that it leaves. -/
theorem Stops.after (h : Stops r w w') : after (r w) = w' := by
  rcases h with ⟨a, ok⟩ | ⟨e, broken⟩
  · rw [ok, Rule.after]
  · rw [broken, Rule.after]

/-- A local rule that stops does so wherever it can read the same tokens up to the same token, and
with the same outcome. -/
theorem Local.stops_of_reads (h : Local r) (stops : Stops r v v') (reads : v.Reads ts v')
    (reads' : w.Reads ts w') (same : w'.current = v'.current) :
    Stops r w w' ∧ outcome (r w) = outcome (r v) := by
  rcases stops with ⟨a, ok⟩ | ⟨e, broken⟩
  · have ok' := h.ok_of_reads ok reads reads' same
    exact ⟨.inl ⟨a, ok'⟩, by rw [ok, ok', outcome, outcome]⟩
  · have broken' := h.broken_of_reads broken reads reads' same
    exact ⟨.inr ⟨e, broken'⟩, by rw [broken, broken', outcome, outcome]⟩

/-- Where a fault comes up behind some tokens, a local rule that would not stop among these meets
the fault. -/
theorem Local.fault_of_reads (h : Local r) (reads : v.Reads ts x)
    (beyond : ∀ us z, us <+: ts → v.Reads us z → ¬ Stops r v z) (reads' : w.Reads ts y)
    (same : y.current = x.current) (fault : y.advanced = (some e, w')) :
    r w = .error (.fault e) w' := by
  -- If the rule stops behind the fault's tokens or among them, then it also does where it started.
  have moves : ∀ {us z}, w.Reads us z → ¬ Stops r w z := by
    intro us z some stops
    obtain ⟨more, rfl⟩ := reads'.prefix_of_fault fault some
    obtain ⟨z', first, rest⟩ := reads_append.1 reads
    obtain ⟨z'', first', rest'⟩ := reads_append.1 reads'
    obtain rfl := some.unique first'
    have next : z'.current = z.current := rest'.current_eq rest same.symm
    exact beyond us z' (List.prefix_append us more) first (h.stops_of_reads stops some first next).1
  cases h w with
  | ok ok some => exact absurd (.inl ⟨_, ok⟩) (moves some)
  | broken broken some => exact absurd (.inr ⟨_, broken⟩) (moves some)
  | @fault e' z last us met some fault' =>
    -- Neither fault is behind the other one.
    have one := reads'.prefix_of_fault fault some
    have other := some.prefix_of_fault fault' reads'
    obtain rfl := one.eq_of_length_le other.length_le
    obtain rfl := some.unique reads'
    obtain ⟨rfl, rfl⟩ : e = e' ∧ w' = last := by simpa using fault.symm.trans fault'
    exact met

/-- A local rule that stops has read some tokens, and one that meets a fault does so behind some. -/
theorem Local.cases_end (h : Local r) (v : Window) :
    (∃ ts, v.Reads ts (after (r v)) ∧ Stops r v (after (r v))) ∨
    ∃ e ts x, r v = .error (.fault e) (after (r v)) ∧ v.Reads ts x ∧
      x.advanced = (some e, after (r v)) := by
  cases h v with
  | @ok a v' ts ok reads =>
    have left : after (r v) = v' := by rw [ok, after]
    exact .inl ⟨ts, left ▸ reads, .inl ⟨a, left ▸ ok⟩⟩
  | @broken e v' ts broken reads =>
    have left : after (r v) = v' := by rw [broken, after]
    exact .inl ⟨ts, left ▸ reads, .inr ⟨e, left ▸ broken⟩⟩
  | @fault e x v' ts met reads fault =>
    have left : after (r v) = v' := by rw [met, after]
    exact .inr ⟨e, ts, x, left ▸ met, reads, left ▸ fault⟩

/-- A local rule that moves the window does so by a last step, and it would not stop before that. -/
theorem Local.exists_last (h : Local r) (moves : v.position < (after (r v)).position) :
    ∃ ts x met, v.Reads ts x ∧ x.atEnd = false ∧ x.advanced = (met, after (r v)) ∧
      ∀ us z, us <+: ts → v.Reads us z → ¬ Stops r v z := by
  rcases h.cases_end v with ⟨us, reads, stops⟩ | ⟨e, ts, x, met, reads, fault⟩
  · -- Where it stops behind some tokens, the last of these is read by the last step.
    have far := reads.position
    rcases us.eq_nil_or_concat with rfl | ⟨ts, t, whole⟩
    · rw [List.length_nil] at far
      omega
    · rw [List.concat_eq_append] at whole
      subst whole
      obtain ⟨x, front, last⟩ := reads_append.1 reads
      obtain ⟨start, -, step⟩ := reads_singleton.1 last
      refine ⟨ts, x, none, front, start, step, fun us z short some stops' => ?_⟩
      have near := some.position
      have less := short.length_le
      rw [stops'.after, near, List.length_append, List.length_singleton] at far
      omega
  · refine ⟨ts, x, some e, reads, atEnd_of_fault fault, fault, ?_⟩
    rintro us z - - (⟨a, ok⟩ | ⟨e', broken⟩)
    · cases met.symm.trans ok
    · cases met.symm.trans broken

/-! ## Rules over feeds -/

section Feeds

variable {f g : Feed} {v₀ : Window} {us : List Token} {p : Nat}

/-- A local rule that would end in front of a token meets the fault that stands behind this token,
on all feeds that show the same up to there. -/
theorem Local.fault_of_shown (h : Local r) (opens : open? f = .ok v₀) (reads : v₀.Reads us v)
    (ends : (after (r v)).position = p) (agree : ∀ i ≤ p, g.shown i = f.shown i)
    (fault : g.shown (p + 1) = .error e) (moves : us.length < p) :
    ∃ w₀ w w', open? g = .ok w₀ ∧ w₀.Reads us w ∧ r w = .error (.fault e) w' ∧ w'.position = p ∧
      w'.depth = (after (r v)).depth := by
  obtain ⟨-, here, -⟩ := reads.of_open opens
  obtain ⟨ts, x, met, front, more, step, beyond⟩ :=
    h.exists_last (v := v) (by rw [here, ends]; exact moves)
  have both : v₀.Reads (us ++ ts) x := reads.append front
  obtain ⟨shown, position, depth⟩ := both.of_open opens
  obtain ⟨-, -, next, depth'⟩ := moved_of_advanced more step
  have place : (us ++ ts).length + 1 = p := by rw [← ends, next, position]
  -- The token in front of which the rule would end can be drawn, so the tokens before can be read.
  have clear : ∀ e, g.shown ((us ++ ts).length + 1) ≠ .error e := by
    intro e
    rw [place, agree p (Nat.le_refl p), ← place, ← shown 1]
    exact nofun
  -- The other feed is read up to the last step, and that step meets the fault.
  obtain ⟨w₀, y, opens', both', same⟩ := exists_reads_of_open opens both
    (fun i le => agree i (by omega)) clear
  obtain ⟨w, reads', front'⟩ := reads_append.1 both'
  obtain ⟨shown', position', depth''⟩ := both'.of_open opens'
  have more' : y.atEnd = false := by rw [atEnd, same, ← atEnd, more]
  have comes : y.shown 2 = .error e := by rw [shown', ← fault, ← place]
  obtain ⟨w', step'⟩ := (exists_advanced_iff more').2 comes
  obtain ⟨-, -, next', last⟩ := moved_of_advanced more' step'
  have meets := h.fault_of_reads front beyond front' same step'
  refine ⟨w₀, w, w', opens', reads', meets, ?_, ?_⟩
  · rw [next', position', place]
  · rw [last, depth', same, depth'', depth]

/-- A local rule that stops in front of a token stops there with the same outcome, on all feeds that
show the same up to there and no fault behind. -/
theorem Local.stops_of_shown (h : Local r) (opens : open? f = .ok v₀) (reads : v₀.Reads us v)
    (front : v.Reads ts (after (r v))) (stops : Stops r v (after (r v)))
    (ends : (after (r v)).position = p) (agree : ∀ i ≤ p, g.shown i = f.shown i)
    (clear : ∀ e, g.shown (p + 1) ≠ .error e) :
    ∃ w₀ w, open? g = .ok w₀ ∧ w₀.Reads us w ∧ outcome (r w) = outcome (r v) ∧
      (after (r w)).position = p ∧ (after (r w)).depth = (after (r v)).depth := by
  have both : v₀.Reads (us ++ ts) (after (r v)) := reads.append front
  obtain ⟨-, position, depth⟩ := both.of_open opens
  have place : (us ++ ts).length = p := by rw [← ends, position]
  obtain ⟨w₀, w', opens', both', same⟩ := exists_reads_of_open opens both
    (fun i le => agree i (place ▸ le)) (by rw [place]; exact clear)
  obtain ⟨w, reads', front'⟩ := reads_append.1 both'
  obtain ⟨-, position', depth'⟩ := both'.of_open opens'
  obtain ⟨stops', agrees⟩ := h.stops_of_reads stops front front' same
  refine ⟨w₀, w, opens', reads', agrees, ?_, ?_⟩
  · rw [stops'.after, position', place]
  · rw [stops'.after, depth', depth]

/-- A local rule does the same on all feeds that show the same up to the token in front of which it
ends, and the same fault behind this token or none. -/
theorem Local.same_of_shown (h : Local r) (opens : open? f = .ok v₀) (reads : v₀.Reads us v)
    (ends : (after (r v)).position = p) (agree : ∀ i ≤ p, g.shown i = f.shown i)
    (faults : ∀ e, g.shown (p + 1) = .error e ↔ f.shown (p + 1) = .error e) :
    ∃ w₀ w, open? g = .ok w₀ ∧ w₀.Reads us w ∧ outcome (r w) = outcome (r v) ∧
      (after (r w)).position = p ∧ (after (r w)).depth = (after (r v)).depth := by
  rcases h.cases_end v with ⟨ts, front, stops⟩ | ⟨e, ts, x, met, front, step⟩
  · refine h.stops_of_shown opens reads front stops ends agree fun e fault => ?_
    -- The window behind the rule has drawn the token there.
    obtain ⟨shown, position, -⟩ := (reads.append front).of_open opens
    have drawn := shown 1
    rw [← position, ends, (faults e).1 fault] at drawn
    cases drawn
  · obtain ⟨shown, position, -⟩ := (reads.append front).of_open opens
    have more := atEnd_of_fault step
    -- The last step was the one that met the fault, so the place is behind the token that was read
    -- by it.
    have place : p = (us ++ ts).length + 1 := by
      rw [← ends, (moved_of_advanced more step).2.2.1, position]
    have moves : us.length < p := by
      rw [place, List.length_append]
      omega
    have comes : f.shown (p + 1) = .error e := by
      rw [place, Nat.add_assoc, ← shown 2]
      exact (exists_advanced_iff more).1 ⟨_, step⟩
    obtain ⟨w₀, w, w', opens', reads', met', position', depth'⟩ :=
      h.fault_of_shown opens reads ends agree ((faults e).2 comes) moves
    refine ⟨w₀, w, opens', reads', ?_, ?_, ?_⟩
    · rw [met', met, outcome, outcome]
    · rw [met', after, position']
    · rw [met', after, depth']

end Feeds

end Rule

open Window Rule

/-- **One token decides.** Let a feed be read up to some token, and a declaration from there on up
to the place `p`: its outcome is a statement, an error or a fault. Take any other feed that shows
the same up to this place, the place itself included. If it has a fault at the place behind just
when the first feed has, and the same one, then the same tokens can be read from it, and a
declaration has the same outcome there and ends at the same place, with as many open braces,
whatever comes later. And if it has any fault there, then a declaration that moves at all meets this
fault at the place `p`, with as many open braces; one that would not move does not come to be read,
since the fault comes up before. -/
theorem declaration_decided (limit : Int) {f g : Feed} {v₀ v : Window} {us : List Token} {p : Nat}
    (opens : open? f = .ok v₀) (reads : v₀.Reads us v)
    (ends : (after (declaration limit v)).position = p) (agree : ∀ i ≤ p, g.shown i = f.shown i) :
    ((∀ e, g.shown (p + 1) = .error e ↔ f.shown (p + 1) = .error e) →
      ∃ w₀ w, open? g = .ok w₀ ∧ w₀.Reads us w ∧
        outcome (declaration limit w) = outcome (declaration limit v) ∧
        (after (declaration limit w)).position = p ∧
        (after (declaration limit w)).depth = (after (declaration limit v)).depth) ∧
    ∀ e, g.shown (p + 1) = .error e →
      (us.length < p → ∃ w₀ w w', open? g = .ok w₀ ∧ w₀.Reads us w ∧
        declaration limit w = .error (.fault e) w' ∧ w'.position = p ∧
        w'.depth = (after (declaration limit v)).depth) ∧
      (us.length = p → ∀ w₀ w, open? g = .ok w₀ → ¬ w₀.Reads us w) := by
  have isLocal : Local (declaration limit) := local_declaration limit limit.toNat
  refine ⟨isLocal.same_of_shown opens reads ends agree, fun e fault => ⟨?_, ?_⟩⟩
  · exact isLocal.fault_of_shown opens reads ends agree fault
  · intro stays w₀ w opens' reads'
    -- A window in front of the token at the place `p` has drawn the token behind it.
    have drawn := (reads'.of_open opens').1 1
    rw [stays, fault] at drawn
    cases drawn

/-- Some names with semicolons between them, on the first line. -/
def namesOf : List Char → List Token
  | [] => []
  | [c] => [.ofLexeme .identifier [c] 1]
  | c :: cs => .ofLexeme .identifier [c] 1 :: .ofLexeme .semicolon [';'] 1 :: namesOf cs

/-- The second of two statements is the same whether one name or two are behind it, and it is not
given if a character that starts no token is behind the first name. -/
theorem declaration_decided_secondName :
    ∃ v₀ v, open? (scan "a; i; j") = .ok v₀ ∧ v₀.Reads ((namesOf ['a', 'i']).take 2) v ∧
      (after (declaration 40 v)).position = 4 ∧
      (∀ i ≤ 4, (scan "a; i; j k").shown i = (scan "a; i; j").shown i) ∧
      (∃ w₀ w, open? (scan "a; i; j k") = .ok w₀ ∧ w₀.Reads ((namesOf ['a', 'i']).take 2) w ∧
        outcome (declaration 40 w) = outcome (declaration 40 v) ∧
        (after (declaration 40 w)).position = 4 ∧
        (after (declaration 40 w)).depth = (after (declaration 40 v)).depth) ∧
      (∀ i ≤ 4, (scan "a; i; j @").shown i = (scan "a; i; j").shown i) ∧
      ∃ w₀ w w', open? (scan "a; i; j @") = .ok w₀ ∧
        w₀.Reads ((namesOf ['a', 'i']).take 2) w ∧
        declaration 40 w = .error (.fault ⟨.unexpectedCharacter '@', 1⟩) w' ∧ w'.position = 4 ∧
        w'.depth = (after (declaration 40 v)).depth := by
  -- What the three texts give, and what is shown of it up to the place.
  have one : scan "a; i; j" = .ofList (namesOf ['a', 'i', 'j'] ++ [.eof]) := by decide +kernel
  have name : scan "a; i; j k" =
      .ofList (namesOf ['a', 'i', 'j'] ++ [.ofLexeme .identifier ['k'] 1, .eof]) := by
    decide +kernel
  have sign : scan "a; i; j @" =
      ⟨namesOf ['a', 'i', 'j'], some ⟨.unexpectedCharacter '@', 1⟩⟩ := by decide +kernel
  have agree : ∀ i ≤ 4, (scan "a; i; j k").shown i = (scan "a; i; j").shown i ∧
      (scan "a; i; j @").shown i = (scan "a; i; j").shown i := by
    rw [one, name, sign]
    intro i le
    match i, le with
    | 0, _ | 1, _ | 2, _ | 3, _ | 4, _ => exact ⟨rfl, rfl⟩
  have clear : ∀ e, (scan "a; i; j k").shown 5 = .error e ↔
      (scan "a; i; j").shown 5 = .error e := by
    rw [one, name]
    exact fun e => ⟨nofun, nofun⟩
  have fault : (scan "a; i; j @").shown 5 = .error ⟨.unexpectedCharacter '@', 1⟩ := by
    rw [sign]
    rfl
  obtain ⟨v₀, v, opens, reads, ends⟩ : ∃ v₀ v, open? (scan "a; i; j") = .ok v₀ ∧
      v₀.Reads ((namesOf ['a', 'i']).take 2) v ∧ (after (declaration 40 v)).position = 4 := by
    rw [one]
    exact ⟨_, _, rfl, ⟨rfl, rfl, _, rfl, rfl, rfl, _, rfl, rfl⟩, rfl⟩
  have same := fun i le => (agree i le).1
  have same' := fun i le => (agree i le).2
  exact ⟨v₀, v, opens, reads, ends, same, (declaration_decided 40 opens reads ends same).1 clear,
    same', ((declaration_decided 40 opens reads ends same').2 _ fault).1 (by decide)⟩

/-- A statement of which all tokens are there, and the one behind it as well, is not given if a
fault stands behind that one. -/
theorem not_declaration_decided_by_tokens :
    ∃ v w, open? (scan "i; j") = .ok v ∧ open? (scan "i; j @") = .ok w ∧
      (after (declaration 40 v)).position = 2 ∧
      (∀ i ≤ 2, (scan "i; j @").shown i = (scan "i; j").shown i) ∧
      outcome (declaration 40 w) ≠ outcome (declaration 40 v) := by
  have one : scan "i; j" = .ofList (namesOf ['i', 'j'] ++ [.eof]) := by decide +kernel
  have other : scan "i; j @" = ⟨namesOf ['i', 'j'], some ⟨.unexpectedCharacter '@', 1⟩⟩ := by
    decide +kernel
  rw [one, other]
  refine ⟨_, _, rfl, rfl, rfl, fun i le => ?_, nofun⟩
  match i, le with
  | 0, _ | 1, _ | 2, _ => rfl

end Lox
