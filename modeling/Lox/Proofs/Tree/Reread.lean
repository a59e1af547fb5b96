import Lox.Proofs.Decimal.Numeral

/-!
# The tokens of printed trees

The text of a legible tree gives the tokens that the tree is spelled with, whatever its shape
(`lexes_render`). A statement is a list of lines, and headers, braces and branches are put together
by adding to the first or the last of them. So the tokens are told line by line (`SpellsLines`).
-/

namespace Lox

open Lexeme Layout Token

/-! ## Expressions -/

namespace Lexeme

variable {rest : List Char} {us : List Token}

/-- Two texts with a blank between them give their tokens. -/
theorem Spells.blank {text text' : List Char} {ts ts' : List Token} (h : Spells text ts)
    (h' : Spells text' ts') : Spells (text ++ ' ' :: text') (ts ++ ts') := by
  intro rest us loose more
  have right : Lexes (' ' :: (text' ++ rest)) (ts' ++ us) := lexes_blank rfl (h' loose more)
  have left := h rfl right
  simpa using left

/-- An equals sign is its token, if a blank follows it. -/
theorem lexes_equal (more : Lexes rest us) : Lexes ('=' :: ' ' :: rest) (sign .equal :: us) :=
  lexes_fixed .equal (by decide) more

/-- Texts with commas between them give their tokens with commas between them. -/
theorem spells_listed {α : Type} {chars : α → List Char} {spell : α → List Token} {as : List α}
    (h : ∀ a ∈ as, Spells (chars a) (spell a)) :
    Spells (commaSeparated (as.map chars)) (listed (as.map spell)) := by
  induction as with
  | nil => exact fun _ _ _ more => more
  | cons a as ih =>
    cases as with
    | nil => exact h a (List.mem_cons_self ..)
    | cons a' as =>
      intro rest us loose more
      have others := ih (fun a mem => h a (List.mem_cons_of_mem _ mem)) loose more
      have comma := lexes_sign (c := ',') .comma (by decide) (lexes_blank (c := ' ') rfl others)
      have first := h a (List.mem_cons_self ..) rfl comma
      simpa [commaSeparated, listed] using first

end Lexeme

namespace Expr

variable {e : Expr}

/-- Each of some expressions is written. -/
theorem charsOfAll_eq_map (es : List Expr) : charsOfAll es = es.map chars := by
  induction es with
  | nil => rfl
  | cons e es ih => rw [charsOfAll, ih, List.map_cons]

/-- A literal gives its token. -/
theorem spells_literal {value : Literal} (h : value.Legible) :
    Spells value.chars [value.token] := by
  cases value with
  | nil => exact spells_keyword .nilKw (by decide)
  | bool b =>
    cases b with
    | false => exact spells_keyword .falseKw (by decide)
    | true => exact spells_keyword .trueKw (by decide)
  | number x => exact Binary64.spells_number h
  | text s => exact spells_string h

/-- A text starts with a character other than the equals sign. -/
def Starts (text : List Char) : Prop := ∃ c cs, text = c :: cs ∧ c ≠ '='

/-- A text that goes on starts as it did before. -/
theorem Starts.append {text : List Char} (h : Starts text) (text' : List Char) :
    Starts (text ++ text') := by
  obtain ⟨c, cs, rfl, other⟩ := h
  exact ⟨c, cs ++ text', rfl, other⟩

/-- A name starts with a letter. -/
theorem starts_name {t : Token} (h : t.NamesWord) : Starts t.chars := by
  obtain ⟨c, cs, shown, letter⟩ := isLetter_of_name h
  refine ⟨c, cs, shown, ?_⟩
  rintro rfl
  cases letter

/-- A literal does not start with an equals sign. -/
theorem starts_literal {value : Literal} (h : value.Legible) : Starts value.chars := by
  cases value with
  | nil => exact ⟨_, _, rfl, by decide⟩
  | bool b => cases b <;> exact ⟨_, _, rfl, by decide⟩
  | number x =>
    obtain ⟨c, cs, fraction, shown, digit, -⟩ := Binary64.isNumeral_numeral h
    refine ⟨c, cs ++ fraction, shown, ?_⟩
    rintro rfl
    cases digit
  | text s => exact ⟨_, _, rfl, by decide⟩

/-- An expression does not start with an equals sign. -/
theorem starts_chars (legible : e.Legible) : Starts e.chars := by
  -- All but the unary operators start with a name, a value, a keyword or a parenthesis, or as their
  -- first part does.
  induction legible with
  | assign isName _ _ =>
    simp only [chars, List.append_assoc]
    exact (starts_name isName).append _
  | binary _ _ _ ih _ | logical _ _ _ ih _ | call _ _ ih _ | get _ _ ih | set _ _ _ ih _ =>
    simp only [chars, List.append_assoc]
    exact ih.append _
  | grouping | super | this => exact ⟨_, _, rfl, by decide⟩
  | literal h => exact starts_literal h
  | @unary operator right mem fixed _ _ =>
    have either : operator.type = .bang ∨ operator.type = .minus := by simpa using mem
    refine Starts.append ?_ _
    rw [Token.chars, fixed.1]
    rcases either with shown | shown
    · rw [shown]
      exact ⟨'!', [], rfl, by decide⟩
    · rw [shown]
      exact ⟨'-', [], rfl, by decide⟩
  | named isName => exact starts_name isName

/-- The text of an expression gives the tokens that it is spelled with. Its parts are read from the
last to the first, because each of them ends where the next begins. -/
theorem spells_chars (legible : e.Legible) : Spells e.chars e.spelling := by
  -- A part may be followed by what does not go on with its last word or number. That has to be said
  -- where the next part starts, and it holds since that is a blank, a sign, or a point with a name
  -- behind it.
  induction legible with
  | @assign name value isName _ ih =>
    intro rest us loose more
    have right := lexes_equal (ih loose more)
    have left := spells_name isName rfl (lexes_blank (c := ' ') rfl right)
    simpa [chars, spelling] using left
  | @binary left right operator fixed _ _ ih ih' | @logical left right operator fixed _ _ ih ih' =>
    intro rest us loose more
    have right' := lexes_operator fixed (ih' loose more)
    have left' := ih rfl (lexes_blank (c := ' ') rfl right')
    simpa [chars, spelling] using left'
  | @call callee paren arguments _ _ ih ih' =>
    intro rest us loose more
    have right := lexes_sign (c := ')') .rightParen (by decide) more
    have inner := spells_listed ih' rfl right
    have left := lexes_sign (c := '(') .leftParen (by decide) inner
    simpa [chars, spelling, charsOfAll_eq_map, spellings_eq_map] using ih rfl left
  | @get object name isName _ ih =>
    intro rest us loose more
    have dot := lexes_sign (c := '.') .dot (by decide) (spells_name isName loose more)
    have all := ih (isLoose_property isName) dot
    simpa [chars, spelling] using all
  | @grouping inner _ ih =>
    intro rest us loose more
    have right := lexes_sign (c := ')') .rightParen (by decide) more
    have left := lexes_sign (c := '(') .leftParen (by decide) (ih rfl right)
    simpa [chars, spelling] using left
  | literal h => exact spells_literal h
  | @set object value name isName _ _ ih ih' =>
    intro rest us loose more
    have right := lexes_equal (ih' loose more)
    have property := spells_name isName rfl (lexes_blank (c := ' ') rfl right)
    have dot := lexes_sign (c := '.') .dot (by decide) property
    have all := ih (isLoose_property isName) dot
    simpa [chars, spelling] using all
  | @super keyword method isName =>
    intro rest us loose more
    have dot := lexes_sign (c := '.') .dot (by decide) (spells_name isName loose more)
    have keyword : Spells ['s', 'u', 'p', 'e', 'r'] [sign .superKw] :=
      spells_keyword .superKw (by decide)
    have all := keyword (isLoose_property isName) dot
    simpa [chars, spelling] using all
  | this keyword => exact spells_keyword .thisKw (by decide)
  | @unary operator right mem fixed legible ih =>
    intro rest us loose more
    obtain ⟨c, cs, shown, other⟩ := starts_chars legible
    have head : (right.chars ++ rest).head? ≠ some '=' := by
      rw [shown]
      exact fun equals => other (Option.some.inj equals)
    have all := lexes_unary mem fixed head (ih loose more)
    simpa [chars, spelling] using all
  | named isName => exact spells_name isName

end Expr

/-! ## Lines -/

/-- Lines of a text give some tokens, each of its own. -/
inductive SpellsLines : List Line → List Token → Prop
  | nil : SpellsLines [] []
  | cons {line : Line} {lines : List Line} {ts us : List Token} :
    Spells line ts → SpellsLines lines us → SpellsLines (line :: lines) (ts ++ us)

namespace SpellsLines

variable {lines lines' : List Line} {line : Line} {ts us : List Token} {indent header : List Char}

/-- A single line gives its tokens. -/
theorem single (h : Spells line ts) : SpellsLines [line] ts := by
  simpa using cons h nil

/-- Lines after lines give their tokens one after the other. -/
theorem append (h : SpellsLines lines ts) (h' : SpellsLines lines' us) :
    SpellsLines (lines ++ lines') (ts ++ us) := by
  induction h with
  | nil => exact h'
  | cons first _ ih =>
    rw [List.append_assoc]
    exact cons first ih

/-- The last of some lines gives the last of their tokens. -/
theorem split_last (h : SpellsLines (lines ++ [line]) ts) :
    ∃ us vs, ts = us ++ vs ∧ SpellsLines lines us ∧ Spells line vs := by
  induction lines generalizing ts with
  | nil =>
    cases h with
    | @cons _ _ ts us first more =>
      cases more
      exact ⟨[], ts, List.append_nil _, nil, first⟩
  | cons line lines ih =>
    cases h with
    | cons first more =>
      obtain ⟨us, vs, rfl, before, last⟩ := ih more
      exact ⟨_, vs, (List.append_assoc ..).symm, cons first before, last⟩

/-- Lines give the same tokens when they are moved in. -/
theorem indented (blank : ∀ c ∈ indent, isBlank c = true) (h : SpellsLines lines ts) :
    SpellsLines (indented indent lines) ts := by
  induction h with
  | nil => exact nil
  | cons first _ ih => exact cons (spells_blanks blank first) ih

/-- A body between braces gives the braces around its tokens, after those of its header. -/
theorem braced (blank : ∀ c ∈ indent, isBlank c = true) (h : Spells header ts)
    (h' : SpellsLines lines us) :
    SpellsLines (braced indent header lines)
      (ts ++ sign .leftBrace :: (us ++ [sign .rightBrace])) := by
  have first : Spells (header ++ ['\x7b']) (ts ++ [sign .leftBrace]) := by
    intro rest us loose more
    have brace := h rfl (lexes_sign (c := '\x7b') .leftBrace (by decide) more)
    simpa using brace
  have last : Spells ['\x7d'] [sign .rightBrace] := fun _ _ _ more =>
    lexes_sign .rightBrace (by decide) more
  simpa [Layout.braced] using cons first ((h'.indented blank).append (single last))

/-- A statement gives its tokens after those of the header that governs it. -/
theorem governed (blank : ∀ c ∈ indent, isBlank c = true) (h : Spells header ts) (isBlock : Bool)
    (h' : SpellsLines lines us) :
    SpellsLines (governed indent header isBlock lines) (ts ++ us) := by
  cases isBlock with
  | false => exact cons h (h'.indented blank)
  | true =>
    cases h' with
    | nil => exact cons h nil
    | cons first more =>
      rw [← List.append_assoc]
      refine cons ?_ more
      simpa using h.blank first

/-- An `else` gives its tokens after those of the branch before it. -/
theorem joined (isBlock : Bool) (h : SpellsLines lines ts) (h' : SpellsLines lines' us) :
    SpellsLines (joined isBlock lines lines') (ts ++ us) := by
  unfold Layout.joined
  split
  · rename_i last next others shown
    obtain ⟨init, rfl⟩ := List.getLast?_eq_some_iff.1 shown
    rw [List.dropLast_concat]
    obtain ⟨vs, ws, rfl, before, spells⟩ := h.split_last
    cases h' with
    | @cons _ _ xs ys first more =>
      have line : Spells (last ++ [' '] ++ next) (ws ++ xs) := by simpa using spells.blank first
      simpa using (before.append (single line)).append more
  · exact h.append h'

/-- Lines of a text, each ended, give their tokens. -/
theorem lexes (h : SpellsLines lines ts) : Lexes (ended lines) ts := by
  induction h with
  | nil => exact lexes_nil
  | cons first _ ih =>
    have all := first rfl (lexes_blank (c := '\n') rfl ih)
    simpa [ended] using all

end SpellsLines

/-! ## Statements -/

variable {indent : List Char}

/-- A condition between parentheses after a keyword, as it stands in front of a branch or a body,
gives its tokens. -/
theorem spells_condition {condition : Expr} (legible : condition.Legible) (type : TokenType)
    (some : type.text ≠ "") :
    Spells (type.text.toList ++ ' ' :: '(' :: (condition.chars ++ [')']))
      (sign type :: sign .leftParen :: (condition.spelling ++ [sign .rightParen])) := by
  intro rest us loose more
  have right := lexes_sign (c := ')') .rightParen (by decide) more
  have left :=
    lexes_sign (c := '(') .leftParen (by decide) (condition.spells_chars legible rfl right)
  have all := lexes_fixed type some left
  simpa using all

/-- An expression after a keyword and a blank, with a semicolon behind it, gives its tokens. -/
theorem spells_operand {e : Expr} (legible : e.Legible) (type : TokenType)
    (some : type.text ≠ "") :
    Spells (type.text.toList ++ ' ' :: (e.chars ++ [';']))
      (sign type :: (e.spelling ++ [sign .semicolon])) := by
  intro rest us loose more
  have semicolon := lexes_sign (c := ';') .semicolon (by decide) more
  have all := lexes_fixed type some (e.spells_chars legible rfl semicolon)
  simpa using all

/-- The header of a function gives its tokens, after those of its keyword. -/
theorem spells_header {keyword : List Char} {ks : List Token} {name : Token} {params : List Token}
    (opens : ∀ {rest us}, Lexes rest us → Lexes (keyword ++ rest) (ks ++ us))
    (isName : name.NamesWord) (areNames : ∀ t ∈ params, t.NamesWord) :
    Spells (Function.header keyword name params)
      (ks ++ name.asName :: sign .leftParen ::
        (listed (params.map ([·.asName])) ++ [sign .rightParen])) := by
  intro rest us loose more
  have right := lexes_sign (c := ')') .rightParen (by decide) (lexes_blank (c := ' ') rfl more)
  have inner := spells_listed (fun t mem => spells_name (areNames t mem)) rfl right
  have left := lexes_sign (c := '(') .leftParen (by decide) inner
  have all := opens (spells_name isName rfl left)
  simpa [Function.header] using all

/-- The header of a class gives its tokens. -/
theorem spells_className {name : Token} (isName : name.NamesWord) {superclass : Option Token}
    (isParent : ∀ t ∈ superclass, t.NamesWord) (parent : List Char)
    (shown : parent = superclass.elim [] fun t => [' ', '<', ' '] ++ t.chars) :
    Spells (['c', 'l', 'a', 's', 's', ' '] ++ name.chars ++ parent ++ [' '])
      (sign .classKw :: name.asName :: parentSpelling superclass) := by
  intro rest us loose more
  have blank : Lexes (' ' :: rest) us := lexes_blank rfl more
  cases superclass with
  | none =>
    obtain rfl : parent = [] := shown
    have all : Lexes (['c', 'l', 'a', 's', 's'] ++ ' ' :: (name.chars ++ ' ' :: rest)) _ :=
      lexes_fixed .classKw (by decide) (spells_name isName rfl blank)
    simpa [parentSpelling] using all
  | some t =>
    obtain rfl : parent = [' ', '<', ' '] ++ t.chars := shown
    have less : Lexes ('<' :: ' ' :: (t.chars ++ ' ' :: rest)) _ :=
      lexes_fixed .less (by decide) (spells_name (isParent t rfl) rfl blank)
    have named := spells_name isName rfl (lexes_blank (c := ' ') rfl less)
    have all : Lexes (['c', 'l', 'a', 's', 's'] ++ ' ' :: (name.chars ++ _)) _ :=
      lexes_fixed .classKw (by decide) named
    simpa [parentSpelling] using all

/-- A `return` statement gives its tokens, with a value or without. -/
theorem spells_returns (keyword : Token) {value : Option Expr} (legible : ∀ e ∈ value, e.Legible) :
    SpellsLines ((Stmt.returns keyword value).lines indent)
      (Stmt.returns keyword value).spelling := by
  cases value with
  | none =>
    refine .single fun rest us loose more => ?_
    have keyword : Spells ['r', 'e', 't', 'u', 'r', 'n'] [sign .returnKw] :=
      spells_keyword .returnKw (by decide)
    simpa [Stmt.spelling, Expr.spellingAfter] using
      keyword rfl (lexes_sign (c := ';') .semicolon (by decide) more)
  | some e => exact .single (spells_operand (legible e rfl) .returnKw (by decide))

/-- The declaration of a variable gives its tokens, with an initializer or without. -/
theorem spells_varDecl {name : Token} (isName : name.NamesWord) {initializer : Option Expr}
    (legible : ∀ e ∈ initializer, e.Legible) :
    SpellsLines ((Stmt.varDecl name initializer).lines indent)
      (Stmt.varDecl name initializer).spelling := by
  cases initializer with
  | none =>
    refine .single fun rest us loose more => ?_
    have semicolon := lexes_sign (c := ';') .semicolon (by decide) more
    have all : Lexes (['v', 'a', 'r'] ++ ' ' :: (name.chars ++ ';' :: rest)) _ :=
      lexes_fixed .varKw (by decide) (spells_name isName rfl semicolon)
    simpa [Stmt.spelling, Expr.spellingAfter] using all
  | some e =>
    refine .single fun rest us loose more => ?_
    have semicolon := lexes_sign (c := ';') .semicolon (by decide) more
    have value := lexes_equal (e.spells_chars (legible e rfl) rfl semicolon)
    have named := spells_name isName rfl (lexes_blank (c := ' ') rfl value)
    have all : Lexes (['v', 'a', 'r'] ++ ' ' :: (name.chars ++ _)) _ :=
      lexes_fixed .varKw (by decide) named
    simpa [Stmt.spelling, Expr.spellingAfter] using all

/-- What the lines of a declaration give. -/
structure Stmt.Rereads (indent : List Char) (s : Stmt) : Prop where
  /-- The lines of a declaration give the tokens that it is spelled with. -/
  lines : SpellsLines (s.lines indent) s.spelling
  /-- So do the lines of a function without its keyword. -/
  method : ∀ f, s = .function f → SpellsLines (f.lines indent []) f.spelling

/-- What the lines of a statement give that is no function. -/
theorem rereads_of_lines {s : Stmt} (other : ∀ f, s ≠ .function f)
    (h : SpellsLines (s.lines indent) s.spelling) : s.Rereads indent :=
  ⟨h, fun f eq => absurd eq (other f)⟩

/-- The lines of some statements give their tokens one after the other. -/
theorem spellsLines_all {ss : List Stmt} (h : ∀ s ∈ ss, s.Rereads indent) :
    SpellsLines (Stmt.linesOfAll indent ss) (Stmt.spellingAll ss) := by
  induction ss with
  | nil => exact .nil
  | cons s ss ih =>
    exact (h s (List.mem_cons_self ..)).lines.append
      (ih fun s mem => h s (List.mem_cons_of_mem _ mem))

/-- The lines of some methods give their tokens one after the other. -/
theorem spellsLines_methods {fs : List Function}
    (h : ∀ f ∈ fs, (Stmt.function f).Rereads indent) :
    SpellsLines (Function.linesOfAll indent fs) (Function.spellingAll fs) := by
  induction fs with
  | nil => exact .nil
  | cons f fs ih =>
    exact ((h f (List.mem_cons_self ..)).method f rfl).append
      (ih fun f mem => h f (List.mem_cons_of_mem _ mem))

/-- The lines of a function give its tokens, with its keyword and without. -/
theorem rereads_function (blank : ∀ c ∈ indent, isBlank c = true) {name : Token}
    {params : List Token} (isName : name.NamesWord) (areNames : ∀ t ∈ params, t.NamesWord)
    {body : List Line} {us : List Token} (h : SpellsLines body us) {f : Function}
    (shown : ∀ keyword, f.lines indent keyword =
      Layout.braced indent (Function.header keyword name params) body)
    (spelled : f.spelling = name.asName :: sign .leftParen :: (listed (params.map ([·.asName])) ++
      sign .rightParen :: sign .leftBrace :: (us ++ [sign .rightBrace]))) :
    (Stmt.function f).Rereads indent := by
  have opens : ∀ {rest us}, Lexes rest us →
      Lexes (['f', 'u', 'n', ' '] ++ rest) ([sign .funKw] ++ us) := fun more =>
    lexes_fixed .funKw (by decide) more
  have plain : ∀ {rest us}, Lexes rest us → Lexes ([] ++ rest) ([] ++ us) := fun more => more
  constructor
  · rw [Stmt.lines, shown, Stmt.spelling, spelled]
    simpa using (h.braced blank (spells_header opens isName areNames))
  · rintro g eq
    obtain rfl := Stmt.function.inj eq
    rw [shown, spelled]
    simpa using h.braced blank (spells_header plain isName areNames)

/-- The lines of a legible declaration give the tokens that it is spelled with. -/
theorem Stmt.Legible.rereads (blank : ∀ c ∈ indent, isBlank c = true) {s : Stmt}
    (legible : s.Legible) : s.Rereads indent := by
  -- A statement that governs others puts them on lines of their own, or behind its header if they
  -- are blocks; `governed` and `joined` look at both.
  induction legible with
  | @block statements _ ih =>
    refine rereads_of_lines (fun _ => Stmt.noConfusion) ?_
    have empty : Spells [] [] := fun _ _ _ more => more
    simpa [Stmt.lines, Stmt.spelling] using (spellsLines_all ih).braced blank empty
  | @declared name params isName areNames =>
    exact rereads_function blank isName areNames .nil (fun _ => rfl) rfl
  | @function name params body isName areNames _ ih =>
    exact rereads_function blank isName areNames (spellsLines_all ih) (fun _ => rfl) rfl
  | @expression e legible =>
    refine rereads_of_lines (fun _ => Stmt.noConfusion) (.single ?_)
    intro rest us loose more
    have semicolon := lexes_sign (c := ';') .semicolon (by decide) more
    simpa [Stmt.spelling] using e.spells_chars legible rfl semicolon
  | @classDecl name superclass methods isName isParent _ ih =>
    refine rereads_of_lines (fun _ => Stmt.noConfusion) ?_
    have header := spells_className isName isParent _ rfl
    have methods := (spellsLines_methods ih).braced blank header
    cases superclass <;> simpa [Stmt.lines, Stmt.spelling] using methods
  | @ifThen condition thenBranch legible _ ih =>
    refine rereads_of_lines (fun _ => Stmt.noConfusion) ?_
    have header := spells_condition legible .ifKw (by decide)
    have branch := ih.lines.governed blank header thenBranch.isBlock
    simpa [Stmt.lines, Stmt.spelling, TokenType.text] using branch
  | @ifElse condition thenBranch elseBranch legible _ _ ih ih' =>
    refine rereads_of_lines (fun _ => Stmt.noConfusion) ?_
    have header := spells_condition legible .ifKw (by decide)
    have branch := ih.lines.governed blank header thenBranch.isBlock
    have other : Spells ['e', 'l', 's', 'e'] [sign .elseKw] := spells_keyword .elseKw (by decide)
    have otherwise := ih'.lines.governed blank other elseBranch.isBlock
    have both := branch.joined thenBranch.isBlock otherwise
    simpa [Stmt.lines, Stmt.spelling, TokenType.text] using both
  | print legible =>
    exact rereads_of_lines (fun _ => Stmt.noConfusion)
      (.single (spells_operand legible .printKw (by decide)))
  | @returns keyword value legible =>
    exact rereads_of_lines (fun _ => Stmt.noConfusion) (spells_returns keyword legible)
  | varDecl isName legible =>
    exact rereads_of_lines (fun _ => Stmt.noConfusion) (spells_varDecl isName legible)
  | @whileLoop condition body legible _ ih =>
    refine rereads_of_lines (fun _ => Stmt.noConfusion) ?_
    have header := spells_condition legible .whileKw (by decide)
    have inner := ih.lines.governed blank header body.isBlock
    simpa [Stmt.lines, Stmt.spelling, TokenType.text] using inner

/-- The text of legible declarations gives the tokens that they are spelled with, and then the mark
of the end. -/
theorem lexes_render {indent : String} (blank : ∀ c ∈ indent.toList, isBlank c = true)
    {ss : List Stmt} (legible : ∀ s ∈ ss, s.Legible) :
    Lexes (render indent ss).toList (Stmt.spellingAll ss) := by
  rw [render, String.toList_ofList]
  exact (spellsLines_all fun s mem => (legible s mem).rereads blank).lexes

end Lox
