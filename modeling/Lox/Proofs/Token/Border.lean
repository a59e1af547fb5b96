import Lox.Proofs.Token.Scan

/-!
# Lexemes end before blanks

Only strings hold blanks, and a string ends with its first quote. So no lexeme goes on over a blank
that comes behind it, and a lexeme with a blank behind it is the longest one there. It is taken
(`takes_of_blank`), as the longest one always is, unless it is refused or starts a comment
(`takes_of_longest`).
-/

namespace Lox.Lexical

open Lexeme

variable {c d : Char} {content content' more raw raw' rest text : List Char}
  {type type' : TokenType}

/-! ## Blanks in lexemes -/

/-- No blank is part of a word or a number. -/
theorem isWordPart_of_blank (blank : isBlank d = true) : isWordPart d = false ∧ d ≠ '.' := by
  have all : [' ', '\t', '\r', '\n'].all (fun d => !isWordPart d && d != '.') = true := by decide
  simpa using List.all_eq_true.1 all d (isBlank_iff.1 blank)

/-- A number consists of digits and points. -/
theorem IsNumber.isDigit_or (h : IsNumber raw) : ∀ d ∈ raw, isDigit d = true ∨ d = '.' := by
  cases h with
  | whole digits => exact fun d mem => .inl (digits.2 d mem)
  | fraction digits more =>
    intro d mem
    rcases List.mem_append.1 mem with mem | mem
    · exact .inl (digits.2 d mem)
    · rcases List.mem_cons.1 mem with rfl | mem
      · exact .inr rfl
      · exact .inl (more.2 d mem)

/-- A lexeme that holds a blank starts with a quote. -/
theorem IsLexeme.head_of_blank (h : IsLexeme type content (c :: raw)) (mem : d ∈ c :: raw)
    (blank : isBlank d = true) : c = '"' := by
  obtain ⟨part, point⟩ := isWordPart_of_blank blank
  have signs : ∀ type ∈ TokenType.all, type.text.toList.all (fun d => !isBlank d) = true := by
    decide
  rcases h.cases_head with ⟨-, -, -, number⟩ | ⟨letter, -, -, all⟩ | ⟨quote, -⟩ | ⟨-, -, shown, -⟩
  · -- The characters of a number are digits and its point.
    rcases number.isDigit_or d mem with digit | same
    · rw [isWordPart, digit, Bool.or_true] at part
      cases part
    · exact absurd same point
  · rcases List.mem_cons.1 mem with rfl | mem
    · rw [isWordPart, letter, Bool.true_or] at part
      cases part
    · rw [all d mem] at part
      cases part
  · exact quote
  · have none := List.all_eq_true.1 (signs type (TokenType.mem_all type)) d (shown ▸ mem)
    rw [blank] at none
    cases none

/-- A string is the start of no longer lexeme. -/
theorem IsLexeme.eq_nil_of_quote (h : IsLexeme type content ('"' :: raw))
    (h' : IsLexeme type' content' ('"' :: raw ++ more)) : more = [] := by
  obtain ⟨-, rfl, -⟩ := h.of_quote
  rw [List.cons_append] at h'
  obtain ⟨-, same, closed⟩ := h'.of_quote
  cases more using List.reverseRecOn with
  | nil => rfl
  | append_singleton more last =>
    -- The quote that ends the short one would stand inside the long one.
    rw [← List.append_assoc] at same
    have inside := (List.append_inj' same rfl).1
    exact absurd (inside ▸ by simp) closed

/-- Where a lexeme is the start of a longer one, no blank comes between their ends. -/
theorem IsLexeme.isBlank_of_append (h : IsLexeme type content raw)
    (h' : IsLexeme type' content' (raw ++ more)) : ∀ d ∈ more, isBlank d = false := by
  obtain ⟨c, raw, rfl⟩ := List.exists_cons_of_ne_nil h.ne_nil
  intro d mem
  cases blank : isBlank d with
  | false => rfl
  | true =>
    rw [List.cons_append] at h'
    obtain rfl := h'.head_of_blank (List.mem_cons_of_mem c (List.mem_append_right raw mem)) blank
    rw [h.eq_nil_of_quote h'] at mem
    cases mem

/-! ## Longest lexemes before blanks -/

/-- A lexeme with a blank or nothing behind it is the longest one. -/
theorem longest_of_blank (h : IsLexeme type content raw)
    (blank : ∀ d ∈ rest.head?, isBlank d = true) :
    Longest type content raw (raw ++ rest) := by
  refine ⟨h, List.prefix_append raw rest, fun type' content' raw' h' starts => ?_⟩
  refine Nat.le_of_not_lt fun longer => ?_
  obtain ⟨more, rfl⟩ := List.prefix_of_prefix_length_le (List.prefix_append raw rest) starts
    (Nat.le_of_lt longer)
  rw [List.prefix_append_right_inj] at starts
  cases more with
  | nil => simp at longer
  | cons d more =>
    -- The longer lexeme would hold the blank.
    obtain ⟨left, rfl⟩ := starts
    have clash := h.isBlank_of_append h' d (List.mem_cons_self ..)
    rw [blank d rfl] at clash
    cases clash

/-! ## What is taken -/

/-- A lexeme that starts with a slash is a slash. -/
theorem IsLexeme.of_slash (h : IsLexeme type content ('/' :: raw)) : raw = [] := by
  have all : ∀ type ∈ TokenType.all, type.text.toList.head? = some '/' →
      type.text.toList.tail = [] := by decide
  obtain ⟨shown, -⟩ := h.of_sign rfl (by decide)
  have alone := all type (TokenType.mem_all type) (by rw [shown, List.head?_cons])
  rwa [shown, List.tail_cons] at alone

/-- The longest lexeme is taken, unless it is a number with a leading zero, or a slash that a
comment starts with. -/
theorem takes_of_longest (longest : Longest type content raw (raw ++ rest))
    (fine : type = .number → ¬ LeadingZero raw)
    (plain : raw = ['/'] → ∀ d ∈ rest.head?, d ≠ '/' ∧ d ≠ '*') : Takes type content raw rest := by
  obtain ⟨c, ds, rfl⟩ := List.exists_cons_of_ne_nil longest.isLexeme.ne_nil
  -- A comment would start with the slash and go on with what comes next.
  have noComment : ∀ {d text}, c :: ds ++ rest = '/' :: d :: text → d ≠ '/' ∧ d ≠ '*' := by
    intro d text same
    obtain ⟨rfl, behind⟩ := List.cons.inj same
    obtain rfl := longest.isLexeme.of_slash
    exact plain rfl d (by rw [show rest = d :: text from behind, List.head?_cons]; rfl)
  refine ⟨fun piece rest' same discards => ?_, fun code cause refuses => ?_, longest⟩
  · cases discards with
    | @blank d _ blank =>
      obtain ⟨rfl, -⟩ := List.cons.inj same
      obtain rfl := longest.isLexeme.head_of_blank (List.mem_cons_self ..) (isBlank_iff.2 blank)
      cases isBlank_iff.2 blank
    | line => exact (noComment same.symm).1 rfl
    | block => exact (noComment same.symm).2 rfl
  · generalize shown : c :: ds ++ rest = text at refuses
    cases refuses with
    | comment => exact (noComment shown).2 rfl
    | string open' =>
      obtain ⟨rfl, rfl⟩ := List.cons.inj shown
      obtain ⟨-, rfl, -⟩ := longest.isLexeme.of_quote
      exact open' (by simp)
    | number longest' zero =>
      obtain ⟨rfl, -, rfl⟩ := longest.unique (shown ▸ longest')
      exact fine rfl zero
    | character _ none =>
      obtain ⟨rfl, -⟩ := List.cons.inj shown
      exact none _ _ _ longest.isLexeme rfl

/-- A number that is taken has no leading zero. -/
theorem Takes.fine (h : Takes type content raw rest) : type = .number → ¬ LeadingZero raw := by
  rintro rfl zero
  have longest := h.longest
  have same : content = raw := by
    obtain ⟨c, ds, rfl⟩ := List.exists_cons_of_ne_nil longest.isLexeme.ne_nil
    obtain ⟨d, more, start, -⟩ := zero
    obtain ⟨rfl, -⟩ := List.cons.inj start
    exact (longest.isLexeme.of_digit rfl).2.1
  subst same
  exact h.allowed _ _ (.number longest zero)

/-- A slash that is taken starts no comment. -/
theorem Takes.plain (h : Takes type content raw rest) :
    raw = ['/'] → ∀ d ∈ rest.head?, d ≠ '/' ∧ d ≠ '*' := by
  rintro rfl d mem
  obtain ⟨more, rfl⟩ := List.head?_eq_some_iff.1 mem
  have shown : cutSlash (d :: more) = ⟨.token type content, ['/'], d :: more⟩ := cut_of_takes h rfl
  constructor
  · rintro rfl
    cases shown
  · rintro rfl
    rw [cutSlash] at shown
    split at shown <;> cases shown

/-- A lexeme with a blank or nothing behind it is taken, if it is no number with a leading zero. -/
theorem takes_of_blank (h : IsLexeme type content raw) (fine : type = .number → ¬ LeadingZero raw)
    (blank : ∀ d ∈ rest.head?, isBlank d = true) : Takes type content raw rest := by
  refine takes_of_longest (longest_of_blank h blank) fine fun _ d mem => ⟨?_, ?_⟩
  · rintro rfl
    cases blank '/' mem
  · rintro rfl
    cases blank '*' mem

end Lox.Lexical
