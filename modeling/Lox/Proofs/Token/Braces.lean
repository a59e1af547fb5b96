import Mathlib.Data.List.Induction
import Lox.Token.Window

/-!
# Open braces

A window counts the braces that are open, and a closing brace too many does not lower the count
below zero. So the count says what it should: it is zero just if every opening brace that was read
is closed by a brace behind it (`openBraces_eq_zero_iff`). A brace is closed where, for the first
time, there are more closing braces behind it than opening ones.
-/

namespace Lox

open Window (depthAfter)

/-- The number of braces that are open after some tokens, as a window counts them. -/
def openBraces (ts : List Token) : Nat := ts.foldl depthAfter 0

/-- How many of some tokens have a type. -/
def countOf (type : TokenType) (ts : List Token) : Nat := ts.countP (·.type == type)

/-- Some tokens leave one of their opening braces unclosed: however far one looks behind this brace,
there are never more closing braces than opening ones. -/
def LeavesOpen (ts : List Token) : Prop :=
  ∃ before brace inside, ts = before ++ brace :: inside ∧ brace.type = .leftBrace ∧
    ∀ part, part <+: inside → countOf .rightBrace part ≤ countOf .leftBrace part

variable {depth : Nat} {t : Token} {ts : List Token}

/-- One more token opens a brace, closes one, or is no brace. -/
theorem count_cases (depth : Nat) (t : Token) :
    (t.type = .leftBrace ∧ depthAfter depth t = depth + 1 ∧
      countOf .leftBrace [t] = 1 ∧ countOf .rightBrace [t] = 0) ∨
    (t.type = .rightBrace ∧ depthAfter depth t = depth - 1 ∧
      countOf .leftBrace [t] = 0 ∧ countOf .rightBrace [t] = 1) ∨
    (depthAfter depth t = depth ∧ countOf .leftBrace [t] = 0 ∧ countOf .rightBrace [t] = 0) := by
  cases h : t.type <;> simp [depthAfter, countOf, h]

/-- Two rows of tokens have the tokens of both. -/
theorem countOf_append (type : TokenType) (ts us : List Token) :
    countOf type (ts ++ us) = countOf type ts + countOf type us := List.countP_append

/-- The count after one more token. -/
theorem openBraces_concat (ts : List Token) (t : Token) :
    openBraces (ts ++ [t]) = depthAfter (openBraces ts) t := by
  simp only [openBraces, List.foldl_append, List.foldl_cons, List.foldl_nil]

/-- The count is never less than what the opening and closing braces make of it. -/
theorem add_countOf_le (depth : Nat) (ts : List Token) :
    depth + countOf .leftBrace ts ≤ ts.foldl depthAfter depth + countOf .rightBrace ts := by
  induction ts generalizing depth with
  | nil => exact Nat.le_refl depth
  | cons t ts ih =>
    have more := ih (depthAfter depth t)
    have split : ∀ type, countOf type (t :: ts) = countOf type [t] + countOf type ts :=
      fun type => countOf_append type [t] ts
    rw [List.foldl_cons, split, split]
    have := count_cases depth t
    omega

/-- The count is what the opening and closing braces make of it, as long as it is not zero. -/
theorem foldl_depthAfter_add (positive : ∀ part, part <+: ts → 0 < part.foldl depthAfter depth) :
    ts.foldl depthAfter depth + countOf .rightBrace ts = depth + countOf .leftBrace ts := by
  -- Tokens are added at the end, so that the count before the last one is known not to be zero.
  induction ts using List.reverseRecOn with
  | nil => rfl
  | append_singleton ts t ih =>
    have before := ih fun part h => positive part (h.trans (List.prefix_append ts [t]))
    have some := positive ts (List.prefix_append ts [t])
    rw [List.foldl_append, List.foldl_cons, List.foldl_nil, countOf_append, countOf_append]
    have := count_cases (ts.foldl depthAfter depth) t
    omega

/-- Where braces are open, the first of them is left open and the count has not been zero since. -/
theorem exists_open_brace (some : 0 < openBraces ts) :
    ∃ before brace inside, ts = before ++ brace :: inside ∧ brace.type = .leftBrace ∧
      openBraces before = 0 ∧
      ∀ part, part <+: inside → 0 < openBraces (before ++ brace :: part) := by
  induction ts using List.reverseRecOn with
  | nil => cases some
  | append_singleton ts t ih =>
    cases count : openBraces ts with
    | zero =>
      -- No brace was open before the last token, so this token opens one.
      have opens : t.type = .leftBrace := by
        rw [openBraces_concat, count] at some
        have := count_cases 0 t
        grind
      refine ⟨ts, t, [], rfl, opens, count, fun part h => ?_⟩
      rw [List.prefix_nil.1 h]
      exact some
    | succ n =>
      obtain ⟨before, brace, inside, rfl, opens, zero, positive⟩ := ih (by omega)
      refine ⟨before, brace, inside ++ [t], by simp, opens, zero, fun part h => ?_⟩
      rcases List.prefix_concat_iff.1 h with rfl | h
      · simpa using some
      · exact positive part h

/-- No brace is open just if every opening brace is closed. -/
theorem openBraces_eq_zero_iff : openBraces ts = 0 ↔ ¬ LeavesOpen ts := by
  constructor
  · rintro zero ⟨before, brace, inside, rfl, opens, more⟩
    have count := add_countOf_le (openBraces before + 1) inside
    have enough := more inside (List.prefix_refl inside)
    have same : openBraces (before ++ brace :: inside) =
        inside.foldl depthAfter (openBraces before + 1) := by
      simp only [openBraces, List.foldl_append, List.foldl_cons]
      congr 1
      simp only [depthAfter, opens]
    omega
  · intro closed
    refine Nat.eq_zero_of_not_pos fun some => closed ?_
    obtain ⟨before, brace, inside, rfl, opens, zero, positive⟩ := exists_open_brace some
    refine ⟨before, brace, inside, rfl, opens, fun part h => ?_⟩
    have same : ∀ part, openBraces (before ++ brace :: part) = part.foldl depthAfter 1 := by
      intro part
      unfold openBraces at zero ⊢
      simp only [List.foldl_append, zero, List.foldl_cons, depthAfter, opens]
    -- Behind the brace the count is not zero again, so it counts all braces there.
    have count : part.foldl depthAfter 1 + countOf .rightBrace part =
        1 + countOf .leftBrace part := foldl_depthAfter_add fun part' h' => by
      rw [← same]
      exact positive part' (h'.trans h)
    have one := positive part h
    rw [same] at one
    omega

end Lox
