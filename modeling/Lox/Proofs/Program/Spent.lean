import Lox.Program.Session
import Lox.Proofs.Program.Step

/-!
# What a fault leaves

A fault comes up in place of a token, and the window shows the token in front of it twice. So the
tokens that are left are one and the same. No declaration is read from them, because none starts
with a token that it can end with (`Window.Spent.declaration`). A pass that goes on records an error
for them and stops (`Session.resume_of_spent`).
-/

namespace Lox

variable {w w' x : Window} {ts : List Token}

namespace Window

/-- A window that a fault came up behind: no other one comes, and all tokens that are left are one
and the same. -/
structure Spent (w : Window) : Prop where
  /-- The feed has no fault. -/
  clear : w.feed.fault = none
  /-- The tokens are all the same. -/
  same : ∃ t, ∀ u ∈ w.ahead, u = t

/-- A fault leaves the token in front of it, twice. -/
theorem spent_of_advanced {e : LexicalError} (met : x.advanced = (some e, w)) : w.Spent := by
  obtain ⟨-, more, -, rfl⟩ := met_of_advanced met
  refine ⟨rfl, x.next, ?_⟩
  have ahead : ({ x.moved with feed := .dry } : Window).ahead = [x.next, x.next] := by
    simp [ahead, moved, more, Feed.dry]
  simp [ahead]

/-- What is left behind some of the tokens is spent as well. -/
theorem Spent.reads (h : w.Spent) (reads : w.Reads ts w') : w'.Spent := by
  obtain ⟨t, same⟩ := h.same
  obtain ⟨split, -, clear⟩ := reads.ahead h.clear
  exact ⟨clear, t, fun u mem => same u (split ▸ List.mem_append_right _ mem)⟩

/-- No declaration is read from what a fault leaves, because none is one token over and over. -/
theorem Spent.declaration (limit : Int) (h : w.Spent) :
    ∃ e after, declaration limit w = .error (.broken e) after ∧ after.Spent := by
  have atWindow : Rule.LocalAt (Lox.declaration limit) w :=
    Rule.local_declaration limit limit.toNat w
  cases atWindow with
  | @ok s after _ ok =>
    obtain ⟨us, reads, phrase⟩ := (Rule.recognizes_declaration limit limit.toNat).sound ok
    obtain ⟨t, same⟩ := h.same
    obtain ⟨split, -, -⟩ := reads.ahead h.clear
    obtain ⟨u, mem, other⟩ := Grammar.exists_ne_of_declaration phrase t
    exact absurd (same u (split ▸ List.mem_append_left _ mem)) other
  | broken broken reads => exact ⟨_, _, broken, h.reads reads⟩
  | fault _ reads faulty => cases h.clear.symm.trans (reads.fault_of_advanced faulty)

/-- A step from what a fault leaves records an error, unless it is at the end. -/
theorem Spent.step (limit : Int) (h : w.Spent) (start : w.atEnd = false) :
    ∃ e failed after, step limit w = .skipped e failed after ∧ after.Spent := by
  rcases step_cases limit h.clear start with
    ⟨s, _, _, -, -, ok, -⟩ | ⟨e, _, failed, _, after, reads, -, recovers, eq⟩
  · obtain ⟨_, _, broken, -⟩ := h.declaration limit
    cases ok.symm.trans broken
  · exact ⟨e, failed, after, eq, h.reads (reads.append recovers.reads)⟩

end Window

namespace Session

variable {s s' : Session}

/-- A session whose window a fault came up behind. -/
def Spent (s : Session) : Prop := ∃ w, s.window = some w ∧ w.Spent

/-- A pass that reads on from what a fault left stops. It records errors unless it is at the end or
has no turn. -/
theorem resumeFor_of_spent (s : Session) (clock : List Token) (h : w.Spent) :
    ∃ errors last, last.Spent ∧ (errors = [] ↔ clock = [] ∨ w.atEnd = true) ∧
      s.resumeFor clock w = (.stop, .finished,
        { s with errors := s.errors ++ errors, window := some last }) := by
  -- By induction on the clock: each turn records an error, up to the one at the end.
  induction clock generalizing s w with
  | nil => exact ⟨[], w, h, by simp, by rw [resumeFor, List.append_nil]⟩
  | cons _ clock ih =>
    cases start : w.atEnd with
    | true =>
      refine ⟨[], w, h, by simp, ?_⟩
      simp only [resumeFor, step_of_atEnd s.limit start, List.append_nil]
    | false =>
      obtain ⟨e, failed, after, eq, spent⟩ := h.step s.limit start
      obtain ⟨errors, last, spent', -, eq'⟩ := ih { s with errors := s.errors ++ [e] } spent
      refine ⟨e :: errors, last, spent', by simp, ?_⟩
      simp only [resumeFor, eq, eq', List.append_assoc, List.singleton_append]

/-- A pass that goes on from what a fault left stops. No error is recorded afterwards just if none
was before and nothing is left. -/
theorem resume_of_spent (window : s.window = some w) (spent : w.Spent) :
    s.resume.1 = .stop ∧ s.resume.2.2.Spent ∧
      (s.resume.2.2.hasErrors = false ↔ s.hasErrors = false ∧ w.atEnd = true) := by
  obtain ⟨errors, last, spent', none, eq⟩ := s.resumeFor_of_spent w.clock spent
  have turns : w.clock ≠ [] := List.cons_ne_nil _ _
  have stops : s.resume = s.resumeFor w.clock w := by rw [resume, window]
  rw [stops, eq]
  refine ⟨rfl, ⟨last, rfl, spent'⟩, ?_⟩
  simp [hasErrors, none, turns]

/-- A fault has come up behind the window after a declaration outside the passes, if it did so
before or comes up in the declaration. -/
theorem declaration_spends {r : Except Interrupt Stmt} (read : s.declaration = some (r, s'))
    (spent : s.Spent ∨ ∃ e, r = .error (.fault e)) : s'.Spent := by
  obtain ⟨w, window, split⟩ := Option.map_eq_some_iff.1 read
  -- A declaration that is read or broken only reads on, and a fault leaves a spent window.
  have onward {ts : List Token} {after : Window} (reads : w.Reads ts after)
      (calm : ∀ e, r ≠ .error (.fault e)) : after.Spent := by
    rcases spent with ⟨v, window', spent⟩ | ⟨e, fault⟩
    · obtain rfl := Option.some.inj (window.symm.trans window')
      exact spent.reads reads
    · exact absurd fault (calm e)
  cases Rule.local_declaration s.limit s.limit.toNat w with
  | ok ok reads =>
    rw [Lox.declaration, ok] at split
    cases split
    exact ⟨_, rfl, onward reads (by simp)⟩
  | broken broken reads =>
    rw [Lox.declaration, broken] at split
    cases split
    exact ⟨_, rfl, onward reads (by simp)⟩
  | fault fault _ faulty =>
    rw [Lox.declaration, fault] at split
    cases split
    exact ⟨_, rfl, Window.spent_of_advanced faulty⟩

end Session

end Lox
