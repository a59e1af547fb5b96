import Lox.Proofs.Token.Lexical
import Mathlib.Data.List.TakeWhile

/-!
# Scanning takes the longest lexeme

The first piece of a text is looked at once, case by case of the scan: it is something that is
passed over, the longest lexeme there, or a text that the grammar refuses (`fits_cut`). After that
the other direction: the grammar leaves no choice, so what it passes over, takes or refuses is the
first piece (`cut_of_discards`, `cut_of_takes`, `cut_of_refuses`). Nothing else has to know how a
text is cut.
-/

namespace Lox.Lexical

open Lexeme

variable {c : Char} {cs ds body content content' raw raw' text piece rest : List Char}
  {type type' : TokenType} {code : String} {cause : LexicalCause}

/-! ## Comments -/

/-- A text closes a comment at its start or later. -/
theorem closes_cons :
    ['*', '/'] <:+: c :: cs ↔ (c = '*' ∧ cs.head? = some '/') ∨ ['*', '/'] <:+: cs := by
  have slash : ['/'] <+: cs ↔ cs.head? = some '/' := by
    cases cs with
    | nil => simp
    | cons d cs => simp [eq_comm]
  rw [List.infix_cons_iff, List.cons_prefix_cons, slash, eq_comm]

/-- A comment goes up to the first mark that closes it. -/
theorem closeComment_append (first : ¬ ['*', '/'] <:+: body ++ ['*']) (rest : List Char) :
    closeComment (body ++ '*' :: '/' :: rest) = some (body ++ ['*', '/'], rest) := by
  induction body with
  | nil => rfl
  | cons c body ih =>
    rw [List.cons_append, closes_cons, not_or] at first
    -- The first character behind the star is the same with and without the mark.
    have same : (body ++ '*' :: '/' :: rest).head? = (body ++ ['*']).head? := by
      cases body <;> rfl
    rw [List.cons_append, closeComment]
    · rw [ih first.2]
      rfl
    · -- A mark that starts here would lie in front of the one that is first.
      rintro more rfl shown
      exact first.1 ⟨rfl, by rw [← same, shown, List.head?_cons]⟩

/-- A comment that is closed ends with a mark, and none is closed before that. -/
theorem exists_of_closeComment (h : closeComment cs = some (piece, rest)) :
    ∃ body, piece = body ++ ['*', '/'] ∧ ¬ ['*', '/'] <:+: body ++ ['*'] := by
  fun_induction closeComment cs generalizing piece with
  | case1 rest => exact ⟨[], by simpa using (congrArg Prod.fst (Option.some.inj h)).symm, by decide⟩
  | case2 c cs other ih =>
    obtain ⟨⟨inner, left⟩, found, same⟩ := Option.map_eq_some_iff.1 h
    obtain ⟨rfl, rfl⟩ := Prod.mk.inj same
    obtain ⟨body, rfl, first⟩ := ih found
    refine ⟨c :: body, rfl, ?_⟩
    rw [List.cons_append, closes_cons, not_or]
    refine ⟨?_, first⟩
    rintro ⟨rfl, shown⟩
    -- The text behind the star starts as its piece does, so the mark would have been found here.
    have start := append_of_closeComment found
    cases body with
    | nil => cases shown
    | cons d body =>
      obtain rfl := Option.some.inj shown
      exact other _ rfl start.symm
  | case3 => cases h

/-- A comment is not closed if there is no mark. -/
theorem closeComment_eq_none_iff : closeComment cs = none ↔ ¬ ['*', '/'] <:+: cs := by
  fun_induction closeComment cs with
  | case1 rest => simp [closes_cons]
  | case2 c rest other ih =>
    have here : ¬ (c = '*' ∧ rest.head? = some '/') := by
      rintro ⟨rfl, shown⟩
      obtain ⟨more, rfl⟩ := List.head?_eq_some_iff.1 shown
      exact other more rfl rfl
    rw [Option.map_eq_none_iff, ih, closes_cons, or_iff_right here]
  | case3 => simp

/-! ## What is passed over -/

/-- The blank characters. -/
theorem isBlank_iff : isBlank c = true ↔ c ∈ [' ', '\t', '\r', '\n'] := by
  simp [isBlank, or_assoc]

/-- What is passed over is blank. -/
theorem cut_of_discards (h : Discards piece rest) (shown : piece ++ rest = c :: cs) :
    cut c cs = ⟨.blank, piece, rest⟩ := by
  cases h with
  | blank blank =>
    obtain ⟨rfl, rfl⟩ := List.cons.inj shown
    rw [cut, if_pos (isBlank_iff.2 blank)]
    rfl
  | @line body rest inside ends =>
    obtain ⟨rfl, rfl⟩ := List.cons.inj shown
    have all : ∀ d ∈ body, (d != '\n') = true := fun d mem =>
      bne_iff_ne.2 (ne_of_mem_of_not_mem mem inside)
    have stop : ∀ d ∈ rest.head?, (d != '\n') = false := by
      rcases ends with rfl | ends
      · simp
      · simp [ends]
    obtain ⟨taken, left⟩ := span_append rest all stop
    show cutSlash ('/' :: (body ++ rest)) = _
    rw [cutSlash, taken, left]
  | @block body rest first =>
    obtain ⟨rfl, rfl⟩ := List.cons.inj shown
    have closed : closeComment (body ++ ['*', '/'] ++ rest) = some (body ++ ['*', '/'], rest) := by
      rw [List.append_assoc]
      exact closeComment_append first rest
    show cutSlash ('*' :: (body ++ ['*', '/'] ++ rest)) = _
    simp only [cutSlash, closed]

/-! ## The longest lexemes -/

/-- A start of a text that consists of some kind of characters lies in the longest such start. -/
theorem prefix_takeWhile {p : Char → Bool} (starts : raw <+: text) (all : ∀ d ∈ raw, p d = true) :
    raw <+: text.takeWhile p := by
  obtain ⟨rest, rfl⟩ := starts
  rw [List.takeWhile_append_of_pos all]
  exact List.prefix_append raw _

/-- A lexeme at the start of a text starts with its first character. -/
theorem IsLexeme.exists_cons (h : IsLexeme type content raw) (starts : raw <+: c :: cs) :
    ∃ ds, raw = c :: ds ∧ ds <+: cs := by
  obtain ⟨d, ds, rfl⟩ := List.exists_cons_of_ne_nil h.ne_nil
  obtain ⟨rfl, more⟩ := List.cons_prefix_cons.1 starts
  exact ⟨ds, rfl, more⟩

/-- A text up to the next quote is the longest lexeme. -/
theorem longest_string (closed : '"' ∉ content) (rest : List Char) :
    Longest .string content ('"' :: (content ++ ['"'])) ('"' :: (content ++ '"' :: rest)) := by
  have before : ∀ {s : List Char}, '"' ∉ s → ∀ rest,
      (s ++ '"' :: rest).takeWhile (· != '"') = s := fun closed rest =>
    (span_append ('"' :: rest)
      (fun d mem => bne_iff_ne.2 (ne_of_mem_of_not_mem mem closed)) (by simp)).1
  refine ⟨.string closed, ⟨rest, by simp⟩, ?_⟩
  -- Any other string there ends with the same quote, which is the first one of the text.
  intro type' content' raw' h starts
  obtain ⟨ds, rfl, inside⟩ := h.exists_cons starts
  obtain ⟨-, rfl, closed'⟩ := h.of_quote
  obtain ⟨more, shown⟩ := inside
  rw [List.append_assoc] at shown
  have same := congrArg (List.takeWhile (· != '"')) shown
  rw [List.singleton_append, before closed', before closed] at same
  rw [same]

/-- A letter and all parts of a word after it are the longest lexeme. -/
theorem longest_word (letter : isLetter c = true) (cs : List Char) :
    Longest (TokenType.ofWord (String.ofList (c :: cs.takeWhile isWordPart)))
      (c :: cs.takeWhile isWordPart) (c :: cs.takeWhile isWordPart) (c :: cs) := by
  refine ⟨isLexeme_word letter fun d => List.mem_takeWhile_imp, ?_, ?_⟩
  · exact List.cons_prefix_cons.2 ⟨rfl, List.takeWhile_prefix _⟩
  · intro type' content' raw' h starts
    obtain ⟨ds, rfl, inside⟩ := h.exists_cons starts
    obtain ⟨-, -, all⟩ := h.of_letter letter
    exact Nat.succ_le_succ (prefix_takeWhile inside all).length_le

/-- The number that a text starts with: its digits, and its point with the digits after that. -/
def numberOf (text : List Char) : List Char :=
  text.takeWhile isDigit ++ (cutFraction (text.dropWhile isDigit)).1

/-- The digits of a number at its start, and what comes after them. -/
theorem numberOf_cons (digit : isDigit c = true) (cs : List Char) :
    numberOf (c :: cs) = c :: cs.takeWhile isDigit ++ (cutFraction (cs.dropWhile isDigit)).1 := by
  rw [numberOf, List.takeWhile_cons_of_pos digit, List.dropWhile_cons_of_pos digit]

/-- The digits that a text with a digit in front starts with. -/
theorem digits_takeWhile (digit : isDigit c = true) (cs : List Char) :
    Digits ((c :: cs).takeWhile isDigit) := by
  refine ⟨?_, fun d => List.mem_takeWhile_imp⟩
  rw [List.takeWhile_cons_of_pos digit]
  exact List.cons_ne_nil _ _

/-- What a text with a digit in front starts with is a number. -/
theorem isNumber_numberOf (digit : isDigit c = true) (cs : List Char) :
    IsNumber (numberOf (c :: cs)) := by
  have digits := digits_takeWhile digit cs
  rw [numberOf]
  fun_cases cutFraction ((c :: cs).dropWhile isDigit) with
  | case1 d ds next =>
    refine .fraction digits ⟨List.cons_ne_nil _ _, fun e mem => ?_⟩
    rcases List.mem_cons.1 mem with rfl | mem
    · exact next
    · exact List.mem_takeWhile_imp mem
  | case2 d ds next => simpa using .whole digits
  | case3 => simpa using .whole digits

/-- A text starts with no longer number. -/
theorem IsNumber.prefix_numberOf (h : IsNumber raw) (starts : raw <+: text) :
    raw <+: numberOf text := by
  cases h with
  | whole digits => exact (prefix_takeWhile starts digits.2).trans (List.prefix_append _ _)
  | @fraction ds es digits more =>
    -- The point ends the digits before it, whether the number is all of the text or not.
    obtain ⟨rest, rfl⟩ := starts
    obtain ⟨e, es, rfl⟩ := List.exists_cons_of_ne_nil more.1
    have stop : ∀ d ∈ ('.' :: (e :: es ++ rest)).head?, isDigit d = false := by
      simp [show isDigit '.' = false from rfl]
    obtain ⟨taken, left⟩ := span_append _ digits.2 stop
    have inside := prefix_takeWhile (List.prefix_append es rest) fun d mem =>
      more.2 d (List.mem_cons_of_mem e mem)
    rw [List.append_assoc, List.cons_append, numberOf, taken, left, List.cons_append, cutFraction,
      if_pos (more.2 e (List.mem_cons_self ..))]
    simpa using inside

/-- What a text with a digit in front starts with is the longest lexeme. -/
theorem longest_number (digit : isDigit c = true) (cs : List Char) :
    Longest .number (numberOf (c :: cs)) (numberOf (c :: cs)) (c :: cs) := by
  refine ⟨.number (isNumber_numberOf digit cs), ?_, ?_⟩
  · have split := append_of_cutFraction ((c :: cs).dropWhile isDigit)
    refine ⟨(cutFraction ((c :: cs).dropWhile isDigit)).2, ?_⟩
    rw [numberOf, List.append_assoc, split, List.takeWhile_append_dropWhile]
  · intro type' content' raw' h starts
    obtain ⟨ds, rfl, -⟩ := h.exists_cons starts
    obtain ⟨-, -, number⟩ := h.of_digit digit
    exact (number.prefix_numberOf starts).length_le

/-- A number has a leading zero if it starts with zero and has another digit before its point. -/
theorem leadingZero_numberOf (digit : isDigit c = true) (cs : List Char) :
    LeadingZero (numberOf (c :: cs)) ↔ c = '0' ∧ cs.takeWhile isDigit ≠ [] := by
  rw [numberOf_cons digit, List.cons_append]
  constructor
  · rintro ⟨d, more, same, digit'⟩
    obtain ⟨rfl, behind⟩ := List.cons.inj same
    refine ⟨rfl, fun none => ?_⟩
    -- Without more digits the second character would be the point.
    have point : ∀ e ∈ (cutFraction (cs.dropWhile isDigit)).1.head?, e = '.' := by
      fun_cases cutFraction (cs.dropWhile isDigit) <;> simp
    rw [none, List.nil_append] at behind
    obtain rfl := point d (by rw [behind]; rfl)
    cases digit'
  · rintro ⟨rfl, some⟩
    obtain ⟨d, ds, shown⟩ := List.exists_cons_of_ne_nil some
    refine ⟨d, ds ++ (cutFraction (cs.dropWhile isDigit)).1, by rw [shown, List.cons_append], ?_⟩
    exact List.mem_takeWhile_imp (shown ▸ List.mem_cons_self ..)

/-! ## What is cut off -/

/-- What is right about a text that was cut after its first piece. -/
def Fits (text : List Char) (k : Cut) : Prop :=
  match k.piece with
  | .blank => Discards k.taken k.rest
  | .token type content =>
    Longest type content k.taken text ∧ (type = .number → ¬ LeadingZero k.taken)
  | .fault cause => Refuses cause.code cause text

/-- A sign is what the grammar says if the text starts with none that is longer. -/
theorem fits_sign (fixed : type.text.toList = c :: ds) (other : isWordPart c = false)
    (quote : c ≠ '"') (starts : ds <+: cs)
    (most : ∀ type' : TokenType, type'.text.toList.head? = some c →
      type'.text.toList <+: c :: cs → type'.text.toList.length ≤ (c :: ds).length) :
    Fits (c :: cs) ⟨.token type (c :: ds), c :: ds, rest⟩ := by
  have some : type.text ≠ "" := fun empty => by
    rw [empty] at fixed
    cases fixed
  refine ⟨⟨?_, List.cons_prefix_cons.2 ⟨rfl, starts⟩, ?_⟩, ?_⟩
  · rw [← fixed]
    exact .fixed some
  · intro type' content' raw' h shorter
    obtain ⟨ds', rfl, -⟩ := h.exists_cons shorter
    obtain ⟨text, -⟩ := h.of_sign other quote
    rw [← text] at shorter ⊢
    exact most type' (by rw [text, List.head?_cons]) shorter
  · rintro rfl
    exact absurd rfl some

/-- What is left from a character on starts with it. -/
theorem eq_of_dropWhile {d : Char} (left : cs.dropWhile (· != c) = d :: ds) : d = c := by
  have first := List.head?_dropWhile_not (· != c) cs
  rw [left, List.head?_cons] at first
  simpa using first

/-- What comes before a character does not hold it. -/
theorem not_mem_takeWhile : c ∉ cs.takeWhile (· != c) := fun mem => by
  simpa using List.mem_takeWhile_imp mem

/-- The piece that starts with a slash is what the grammar says. -/
theorem fits_cutSlash (cs : List Char) : Fits ('/' :: cs) (cutSlash cs) := by
  fun_cases cutSlash cs with
  | case1 cs =>
    refine .line not_mem_takeWhile ?_
    cases left : cs.dropWhile (· != '\n') with
    | nil => exact .inl rfl
    | cons d rest => exact .inr (by rw [eq_of_dropWhile left, List.head?_cons])
  | case2 cs body rest found =>
    obtain ⟨inner, rfl, first⟩ := exists_of_closeComment found
    exact .block first
  | case3 cs found => exact .comment (closeComment_eq_none_iff.1 found)
  | case4 =>
    have alone : ∀ type ∈ TokenType.all, type.text.toList.head? = some '/' →
        type.text.toList.length ≤ 1 := by decide
    refine fits_sign rfl rfl (by decide) List.nil_prefix fun type starts _ => ?_
    exact alone type (TokenType.mem_all type) starts

/-- The piece that starts with a quote is what the grammar says. -/
theorem fits_cutString (cs : List Char) : Fits ('"' :: cs) (cutString cs) := by
  have split := List.takeWhile_append_dropWhile (p := (· != '"')) (l := cs)
  have closed : '"' ∉ cs.takeWhile (· != '"') := not_mem_takeWhile
  unfold cutString
  cases left : cs.dropWhile (· != '"') with
  | nil =>
    rw [left, List.append_nil] at split
    rw [split] at closed ⊢
    exact .string closed
  | cons quote rest =>
    obtain rfl := eq_of_dropWhile left
    have longest := longest_string closed rest
    rw [← left, split] at longest
    exact ⟨longest, fun other => by cases other⟩

/-- The piece that starts with a digit is the number there, which is refused if it has a leading
zero. -/
theorem cutNumber_eq (digit : isDigit c = true) (cs : List Char) :
    (cutNumber c cs).taken = numberOf (c :: cs) ∧
      (LeadingZero (numberOf (c :: cs)) → (cutNumber c cs).piece =
        .fault (.invalidNumber (String.ofList (numberOf (c :: cs)))
          LexicalCause.leadingZeroReason)) ∧
      (¬ LeadingZero (numberOf (c :: cs)) →
        (cutNumber c cs).piece = .token .number (numberOf (c :: cs))) := by
  have several : (decide (c = '0') && decide (1 < (c :: cs.takeWhile isDigit).length)) = true ↔
      LeadingZero (numberOf (c :: cs)) := by
    rw [leadingZero_numberOf digit, Bool.and_eq_true, decide_eq_true_iff, decide_eq_true_iff,
      List.length_cons, Nat.lt_add_left_iff_pos, List.length_pos_iff]
  have shown := numberOf_cons digit cs
  simp only [cutNumber]
  split
  · rename_i leading
    exact ⟨shown.symm, fun _ => by rw [shown], fun fine => absurd (several.1 leading) fine⟩
  · rename_i fine
    exact ⟨shown.symm, fun leading => absurd (several.2 leading) fine, fun _ => by rw [shown]⟩

/-- The piece that starts with a digit is what the grammar says. -/
theorem fits_cutNumber (digit : isDigit c = true) (cs : List Char) :
    Fits (c :: cs) (cutNumber c cs) := by
  have longest := longest_number digit cs
  obtain ⟨taken, leading, fine⟩ := cutNumber_eq digit cs
  unfold Fits
  by_cases zero : LeadingZero (numberOf (c :: cs))
  · rw [leading zero]
    exact .number longest zero
  · rw [fine zero, taken]
    exact ⟨longest, fun _ => zero⟩

/-- An operator with or without an equals sign is what the grammar says. -/
theorem fits_cutOperator {alone withEquals : TokenType}
    (mem : (c, alone, withEquals) ∈ TokenType.equalsPairs) (cs : List Char) :
    Fits (c :: cs) (cutOperator c alone withEquals cs) := by
  -- That no text of a token goes on with a pair of signs is checked on the table.
  have known : ∀ entry ∈ TokenType.equalsPairs,
      isWordPart entry.1 = false ∧ entry.1 ≠ '"' ∧ entry.2.1.text.toList = [entry.1] ∧
        entry.2.2.text.toList = [entry.1, '='] ∧
        ∀ type ∈ TokenType.all, type.text.toList.head? = some entry.1 →
          type.text.toList = [entry.1] ∨ type.text.toList = [entry.1, '='] := by decide
  obtain ⟨other, quote, one, two, texts⟩ := known _ mem
  fun_cases cutOperator c alone withEquals cs with
  | case1 cs =>
    refine fits_sign two other quote ⟨cs, rfl⟩ fun type starts _ => ?_
    rcases texts type (TokenType.mem_all type) starts with text | text <;> simp [text]
  | case2 =>
    rename_i next
    refine fits_sign one other quote List.nil_prefix fun type starts shorter => ?_
    rcases texts type (TokenType.mem_all type) starts with text | text
    · simp [text]
    · rw [text, List.cons_prefix_cons] at shorter
      obtain ⟨-, more, rfl⟩ := shorter
      exact absurd rfl (next more)

/-- A sign that nothing goes on with is what the grammar says. -/
theorem fits_punctuator (mem : (c, type) ∈ TokenType.punctuators) (cs : List Char) :
    Fits (c :: cs) ⟨.token type [c], [c], cs⟩ := by
  have known : ∀ entry ∈ TokenType.punctuators,
      isWordPart entry.1 = false ∧ entry.1 ≠ '"' ∧ entry.2.text.toList = [entry.1] ∧
        ∀ type ∈ TokenType.all, type.text.toList.head? = some entry.1 →
          type.text.toList.length ≤ 1 := by decide
  obtain ⟨other, quote, text, texts⟩ := known _ mem
  exact fits_sign text other quote List.nil_prefix fun type starts _ =>
    texts type (TokenType.mem_all type) starts

/-- The piece that starts with a letter is what the grammar says. -/
theorem fits_cutWord (letter : isLetter c = true) (cs : List Char) :
    Fits (c :: cs) (cutWord c cs) := by
  refine ⟨longest_word letter cs, fun _ zero => ?_⟩
  obtain ⟨d, more, same, -⟩ := zero
  obtain ⟨rfl, -⟩ := List.cons.inj same
  cases letter

/-- A character that no piece was found to start with is refused. -/
theorem refuses_character (blank : ¬ isBlank c = true)
    (sign : TokenType.punctuators.lookup c = none)
    (operator : TokenType.equalsPairs.lookup c = none) (slash : c ≠ '/') (quote : c ≠ '"')
    (digit : ¬ isDigit c = true) (letter : ¬ isLetter c = true) (cs : List Char) :
    Refuses "L001" (.unexpectedCharacter c) (c :: cs) := by
  -- Every text of a token starts with a part of a word, a slash or a sign of the tables.
  have known : ∀ type ∈ TokenType.all, type.text.toList.head?.all (fun d =>
      isWordPart d || (TokenType.punctuators.lookup d).isSome ||
        (TokenType.equalsPairs.lookup d).isSome || d == '/') = true := by
    decide
  refine .character (fun mem => blank (isBlank_iff.2 mem)) fun type content raw h head => ?_
  obtain ⟨ds, rfl⟩ := List.head?_eq_some_iff.1 head
  rcases h.cases_head with ⟨digit', -⟩ | ⟨letter', -⟩ | ⟨quote', -⟩ | ⟨other, -, text, -⟩
  · exact digit digit'
  · exact letter letter'
  · exact quote quote'
  · have found := known type (TokenType.mem_all type)
    rw [text, List.head?_cons, Option.all_some, other, sign, operator] at found
    exact slash (by simpa using found)

/-- The first piece of a text is what the grammar says. -/
theorem fits_cut (c : Char) (cs : List Char) : Fits (c :: cs) (cut c cs) := by
  -- The cases are those of the scan, in its order. What was not found is needed only in the last.
  unfold cut
  split
  · rename_i blank
    exact .blank (isBlank_iff.1 blank)
  rename_i blank
  split
  · rename_i found
    exact fits_punctuator (TokenType.mem_of_lookup found) cs
  · rename_i found
    exact fits_cutOperator (TokenType.mem_of_lookup found) cs
  rename_i sign operator
  split
  · subst_vars
    exact fits_cutSlash cs
  rename_i slash
  split
  · subst_vars
    exact fits_cutString cs
  rename_i quote
  split
  · rename_i digit
    exact fits_cutNumber digit cs
  rename_i digit
  split
  · rename_i letter
    exact fits_cutWord letter cs
  · rename_i letter
    exact refuses_character blank sign operator slash quote digit letter cs

/-! ## No choice -/

/-- A text has one longest lexeme. -/
theorem Longest.unique (h : Longest type content raw text) (h' : Longest type' content' raw' text) :
    type = type' ∧ content = content' ∧ raw = raw' := by
  -- Both start the text, and neither is longer than the other.
  have same : raw = raw' := by
    refine (List.prefix_of_prefix_length_le h.isPrefix h'.isPrefix ?_).eq_of_length_le ?_
    · exact h'.longest h.isLexeme h.isPrefix
    · exact h.longest h'.isLexeme h'.isPrefix
  subst same
  obtain ⟨type, content⟩ := h.isLexeme.unique h'.isLexeme
  exact ⟨type, content, rfl⟩

/-- A character that neither a lexeme nor a blank starts with is no piece. -/
theorem cut_of_character (blank : c ∉ [' ', '\t', '\r', '\n'])
    (none : ∀ type content raw, IsLexeme type content raw → raw.head? ≠ some c) (cs : List Char) :
    (cut c cs).piece = .fault (.unexpectedCharacter c) := by
  have slash : c ≠ '/' := fun same =>
    none .slash ['/'] ['/'] (.fixed (by decide)) (by rw [same]; rfl)
  have quote : c ≠ '"' := fun same =>
    none .string [] ['"', '"'] (.string List.not_mem_nil) (by rw [same]; rfl)
  have longest : ∀ {type content raw}, ¬ Longest type content raw (c :: cs) := fun h => by
    obtain ⟨ds, rfl, -⟩ := h.isLexeme.exists_cons h.isPrefix
    exact none _ _ _ h.isLexeme rfl
  have fits := fits_cut c cs
  have split := taken_append_rest c cs
  generalize cut c cs = k at fits split ⊢
  obtain ⟨piece, taken, left⟩ := k
  -- Any piece but this fault would start with a blank, a slash, a quote or a lexeme.
  cases piece with
  | blank =>
    cases fits with
    | blank mem => exact absurd ((List.cons.inj split).1 ▸ mem) blank
    | line => exact absurd (List.cons.inj split).1.symm slash
    | block => exact absurd (List.cons.inj split).1.symm slash
  | token type content => exact absurd fits.1 longest
  | fault cause =>
    obtain ⟨code, fits⟩ : ∃ code, Refuses code cause (c :: cs) := ⟨_, fits⟩
    cases fits with
    | comment => exact absurd rfl slash
    | string => exact absurd rfl quote
    | number h => exact absurd h longest
    | character => rfl

/-- What is refused is no piece. -/
theorem cut_of_refuses (h : Refuses code cause (c :: cs)) : (cut c cs).piece = .fault cause := by
  generalize shown : c :: cs = text at h
  cases h with
  | comment h =>
    obtain ⟨rfl, rfl⟩ := List.cons.inj shown
    show (cutSlash ('*' :: _)).piece = _
    simp only [cutSlash, closeComment_eq_none_iff.2 h]
  | string h =>
    obtain ⟨rfl, rfl⟩ := List.cons.inj shown
    have all : ∀ d ∈ cs, (d != '"') = true := fun d mem =>
      bne_iff_ne.2 (ne_of_mem_of_not_mem mem h)
    show (cutString cs).piece = _
    simp only [cutString, List.takeWhile_eq_self_iff.2 all, List.dropWhile_eq_nil_iff.2 all]
  | @number raw _ longest zero =>
    -- The text starts with zero, so the number that is refused is the one that is cut off.
    subst shown
    obtain ⟨d, more, start, -⟩ := id zero
    obtain ⟨rfl, -⟩ := List.cons_prefix_cons.1 (start ▸ longest.isPrefix)
    obtain ⟨-, -, rfl⟩ := longest.unique (longest_number rfl cs)
    exact (cutNumber_eq rfl cs).2.1 zero
  | character blank none =>
    obtain ⟨rfl, rfl⟩ := List.cons.inj shown
    exact cut_of_character blank none cs

/-- A token that is cut off is taken. -/
theorem takes_of_cut (shown : cut c cs = ⟨.token type content, raw, rest⟩) :
    Takes type content raw rest := by
  have split := taken_append_rest c cs
  have fits := fits_cut c cs
  rw [shown] at split fits
  -- If the grammar passed something over or refused it here, that would be the first piece.
  refine ⟨fun piece rest' same h => ?_, fun code cause h => ?_, ?_⟩
  · rw [cut_of_discards h (same.trans split)] at shown
    cases shown
  · rw [show raw ++ rest = c :: cs from split] at h
    have refused := cut_of_refuses h
    rw [shown] at refused
    cases refused
  · rw [show raw ++ rest = c :: cs from split]
    exact fits.1

/-- What is taken is cut off. -/
theorem cut_of_takes (h : Takes type content raw rest) (shown : raw ++ rest = c :: cs) :
    cut c cs = ⟨.token type content, raw, rest⟩ := by
  have split := taken_append_rest c cs
  have fits := fits_cut c cs
  cases found : cut c cs with
  | mk piece taken left =>
    rw [found] at split fits
    cases piece with
    | blank => exact absurd fits (h.kept taken left (split.trans shown.symm))
    | fault cause => exact absurd fits (shown ▸ h.allowed cause.code cause)
    | token type' content' =>
      obtain ⟨rfl, rfl, rfl⟩ := fits.1.unique (shown ▸ h.longest)
      obtain rfl : left = rest := List.append_cancel_left (split.trans shown.symm)
      rfl

end Lox.Lexical
