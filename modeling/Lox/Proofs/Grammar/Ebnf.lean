import Lox.Proofs.Grammar.Statement

/-!
# The grammar as productions

`production` is the grammar of the language as it is written down, one right side for each symbol,
over the types of tokens alone. It allows a comma behind the last argument and the last parameter,
and whatever stands in front of an equals sign may be anything that `logicOr` derives: which targets
can be assigned to is not a matter of form here. A word is a row of types; `Derives p u` says that
the word `u` has a derivation from the phrase `p`.

Three things are computed from a phrase, and shown to be right by induction on derivations: whether
it has the empty word (`nullable_of_derives`), the types that its words start with
(`mem_starters_of_derives`), and that it has words at all (`exists_derives`). For symbols the types
are a table, and `starters_production` says that the table agrees with the productions.
-/

namespace Lox.Ebnf

/-- Rows of types of tokens. -/
abbrev Word := List TokenType

/-- What the productions define. -/
inductive Symbol
  | declaration | classDecl | funDecl | varDecl
  | statement | exprStmt | forStmt | ifStmt | printStmt | returnStmt | whileStmt | block
  | expression | assignment | logicOr | logicAnd | equality | comparison | term | factor
  | unary | call | primary | function | parameters | arguments
  deriving DecidableEq

/-- The right side of a production, or a part of one. -/
inductive Phrase
  /-- A token of one of some types. -/
  | oneOf (types : List TokenType)
  /-- What a symbol stands for. -/
  | symbol (s : Symbol)
  /-- Nothing. -/
  | empty
  /-- One phrase and then another. -/
  | seq (first rest : Phrase)
  /-- One phrase or another: `left | right` -/
  | either (left right : Phrase)
  /-- `part?` -/
  | maybe (part : Phrase)
  /-- `item*` -/
  | many (item : Phrase)
  deriving DecidableEq

namespace Phrase

/-- A token of a type. -/
def token (type : TokenType) : Phrase := oneOf [type]

/-- Phrases after each other. -/
def row : List Phrase → Phrase
  | [] => empty
  | p :: ps => seq p (row ps)

/-- A choice between phrases. -/
def anyOf : List Phrase → Phrase
  | [] => oneOf []
  | p :: ps => either p (anyOf ps)

end Phrase

open Phrase (token row anyOf)

/-- An operand and any number of operators with an operand behind each. -/
def chained (operators : List TokenType) (operand : Phrase) : Phrase :=
  row [operand, .many (row [.oneOf operators, operand])]

/-- A list with commas between its items and maybe one behind the last. -/
def listed (item : Phrase) : Phrase :=
  row [item, .many (row [token .comma, item]), .maybe (token .comma)]

/-- The productions, in the order in which the grammar is written. -/
def production : Symbol → Phrase
  | .declaration =>
    anyOf [.symbol .classDecl, .symbol .funDecl, .symbol .varDecl, .symbol .statement]
  | .classDecl =>
    row [token .classKw, token .identifier, .maybe (row [token .less, token .identifier]),
      token .leftBrace, .many (.symbol .function), token .rightBrace]
  | .funDecl => row [token .funKw, .symbol .function]
  | .varDecl =>
    row [token .varKw, token .identifier, .maybe (row [token .equal, .symbol .expression]),
      token .semicolon]
  | .statement =>
    anyOf [.symbol .exprStmt, .symbol .forStmt, .symbol .ifStmt, .symbol .printStmt,
      .symbol .returnStmt, .symbol .whileStmt, .symbol .block]
  | .exprStmt => row [.symbol .expression, token .semicolon]
  | .forStmt =>
    row [token .forKw, token .leftParen,
      anyOf [.symbol .varDecl, .symbol .exprStmt, token .semicolon],
      .maybe (.symbol .expression), token .semicolon, .maybe (.symbol .expression),
      token .rightParen, .symbol .statement]
  | .ifStmt =>
    row [token .ifKw, token .leftParen, .symbol .expression, token .rightParen, .symbol .statement,
      .maybe (row [token .elseKw, .symbol .statement])]
  | .printStmt => row [token .printKw, .symbol .expression, token .semicolon]
  | .returnStmt => row [token .returnKw, .maybe (.symbol .expression), token .semicolon]
  | .whileStmt =>
    row [token .whileKw, token .leftParen, .symbol .expression, token .rightParen,
      .symbol .statement]
  | .block => row [token .leftBrace, .many (.symbol .declaration), token .rightBrace]
  | .expression => .symbol .assignment
  | .assignment =>
    anyOf [row [.symbol .logicOr, token .equal, .symbol .assignment], .symbol .logicOr]
  | .logicOr => chained [.orKw] (.symbol .logicAnd)
  | .logicAnd => chained [.andKw] (.symbol .equality)
  | .equality => chained [.bangEqual, .equalEqual] (.symbol .comparison)
  | .comparison => chained [.greater, .greaterEqual, .less, .lessEqual] (.symbol .term)
  | .term => chained [.minus, .plus] (.symbol .factor)
  | .factor => chained [.slash, .star] (.symbol .unary)
  | .unary => anyOf [row [.oneOf [.bang, .minus], .symbol .unary], .symbol .call]
  | .call =>
    row [.symbol .primary, .many (anyOf
      [row [token .leftParen, .maybe (.symbol .arguments), token .rightParen],
        row [token .dot, token .identifier]])]
  | .primary =>
    anyOf [token .trueKw, token .falseKw, token .nilKw, token .thisKw, token .number, token .string,
      token .identifier, row [token .leftParen, .symbol .expression, token .rightParen],
      row [token .superKw, token .dot, token .identifier]]
  | .function =>
    row [token .identifier, token .leftParen, .maybe (.symbol .parameters), token .rightParen,
      .symbol .block]
  | .parameters => listed (token .identifier)
  | .arguments => listed (.symbol .expression)

/-- A word has a derivation from a phrase. -/
inductive Derives : Phrase → Word → Prop
  | oneOf {types : List TokenType} {t : TokenType} : t ∈ types → Derives (.oneOf types) [t]
  | symbol {s : Symbol} {u : Word} : Derives (production s) u → Derives (.symbol s) u
  | empty : Derives .empty []
  | seq {p q : Phrase} {u v : Word} : Derives p u → Derives q v → Derives (.seq p q) (u ++ v)
  | left {p q : Phrase} {u : Word} : Derives p u → Derives (.either p q) u
  | right {p q : Phrase} {u : Word} : Derives q u → Derives (.either p q) u
  | none {p : Phrase} : Derives (.maybe p) []
  | some {p : Phrase} {u : Word} : Derives p u → Derives (.maybe p) u
  | nil {p : Phrase} : Derives (.many p) []
  | cons {p : Phrase} {u v : Word} : Derives p u → Derives (.many p) v →
    Derives (.many p) (u ++ v)

/-- A word that some declaration starts with. -/
def Viable (c : Word) : Prop := ∃ z, Derives (.symbol .declaration) (c ++ z)

/-- What a viable word starts with is viable. -/
theorem Viable.of_prefix {c d : Word} (h : Viable d) (starts : c <+: d) : Viable c := by
  obtain ⟨e, rfl⟩ := starts
  obtain ⟨z, derives⟩ := h
  exact ⟨e ++ z, by rwa [← List.append_assoc]⟩

/-! ## Words of phrases -/

section Words

variable {p q : Phrase} {ps qs : List Phrase} {s : Symbol} {u : Word}

/-- A token of one of some types is one token. -/
theorem derives_oneOf {types : List TokenType} :
    Derives (.oneOf types) u ↔ ∃ t ∈ types, u = [t] := by
  constructor
  · rintro ⟨mem⟩
    exact ⟨_, mem, rfl⟩
  · rintro ⟨t, mem, rfl⟩
    exact .oneOf mem

/-- A token of a type is one token. -/
theorem derives_token {type : TokenType} : Derives (token type) u ↔ u = [type] := by
  simp [token, derives_oneOf]

/-- A symbol stands for the right side of its production. -/
theorem derives_symbol : Derives (.symbol s) u ↔ Derives (production s) u :=
  ⟨fun | .symbol h => h, .symbol⟩

/-- Nothing has the empty word only. -/
theorem derives_empty : Derives .empty u ↔ u = [] :=
  ⟨fun | .empty => rfl, fun h => h ▸ .empty⟩

/-- The words of one phrase and then another fall in two. -/
theorem derives_seq :
    Derives (.seq p q) u ↔ ∃ v w, u = v ++ w ∧ Derives p v ∧ Derives q w := by
  constructor
  · rintro ⟨⟩
    rename_i v w left right
    exact ⟨v, w, rfl, left, right⟩
  · rintro ⟨v, w, rfl, left, right⟩
    exact .seq left right

/-- A choice has the words of both phrases. -/
theorem derives_either : Derives (.either p q) u ↔ Derives p u ∨ Derives q u := by
  constructor
  · rintro (_ | _)
    · exact .inl ‹_›
    · exact .inr ‹_›
  · rintro (h | h)
    · exact .left h
    · exact .right h

/-- What may be left out has the empty word, too. -/
theorem derives_maybe : Derives (.maybe p) u ↔ u = [] ∨ Derives p u := by
  constructor
  · rintro (_ | _)
    · exact .inl rfl
    · exact .inr ‹_›
  · rintro (rfl | h)
    · exact .none
    · exact .some h

/-- A row of items is empty or starts with an item. -/
theorem derives_many :
    Derives (.many p) u ↔ u = [] ∨ ∃ v w, u = v ++ w ∧ Derives p v ∧ Derives (.many p) w := by
  constructor
  · rintro (_ | _)
    · exact .inl rfl
    · rename_i v w first rest
      exact .inr ⟨v, w, rfl, first, rest⟩
  · rintro (rfl | ⟨v, w, rfl, first, rest⟩)
    · exact .nil
    · exact .cons first rest

/-- A choice has the words of all its phrases. -/
theorem derives_anyOf : Derives (anyOf ps) u ↔ ∃ p ∈ ps, Derives p u := by
  induction ps with
  | nil => simp [anyOf, derives_oneOf]
  | cons p ps ih => simp [anyOf, derives_either, ih]

/-- A row of one phrase has the words of the phrase. -/
theorem derives_row_singleton : Derives (row [p]) u ↔ Derives p u := by
  simp [row, derives_seq, derives_empty]

/-- The words of a row fall in two wherever the row does. -/
theorem derives_row_append : Derives (row (ps ++ qs)) u ↔
    ∃ v w, u = v ++ w ∧ Derives (row ps) v ∧ Derives (row qs) w := by
  -- By induction on the first row; its first phrase stays in front.
  induction ps generalizing u with
  | nil =>
    constructor
    · exact fun h => ⟨[], u, rfl, .empty, h⟩
    · rintro ⟨v, w, rfl, none, h⟩
      rwa [derives_empty.1 none]
  | cons p ps ih =>
    rw [List.cons_append, row, row, derives_seq]
    constructor
    · rintro ⟨v, w, rfl, first, rest⟩
      obtain ⟨w, x, rfl, middle, last⟩ := ih.1 rest
      exact ⟨v ++ w, x, (List.append_assoc v w x).symm, .seq first middle, last⟩
    · rintro ⟨v, w, rfl, front, last⟩
      obtain ⟨v, x, rfl, first, middle⟩ := derives_seq.1 front
      exact ⟨v, x ++ w, List.append_assoc v x w, first, ih.2 ⟨x, w, rfl, middle, last⟩⟩

end Words

/-! ## First types -/

/-- Whether a phrase has the empty word. Symbols never have it. -/
def Phrase.nullable : Phrase → Bool
  | .oneOf _ | .symbol _ => false
  | .empty | .maybe _ | .many _ => true
  | .seq p q => p.nullable && q.nullable
  | .either p q => p.nullable || q.nullable

/-- The types that the words of a symbol start with. -/
def Symbol.starters : Symbol → List TokenType
  | .declaration => Grammar.declarationStarters
  | .classDecl => [.classKw]
  | .funDecl => [.funKw]
  | .varDecl => [.varKw]
  | .statement => Grammar.statementStarters
  | .forStmt => [.forKw]
  | .ifStmt => [.ifKw]
  | .printStmt => [.printKw]
  | .returnStmt => [.returnKw]
  | .whileStmt => [.whileKw]
  | .block => [.leftBrace]
  | .function | .parameters => [.identifier]
  | .call | .primary => Grammar.primaryStarters
  | .exprStmt | .expression | .assignment | .logicOr | .logicAnd | .equality | .comparison | .term
  | .factor | .unary | .arguments => Grammar.expressionStarters

/-- The types that the words of a phrase start with. -/
def Phrase.starters : Phrase → List TokenType
  | .oneOf types => types
  | .symbol s => s.starters
  | .empty => []
  | .seq p q => if p.nullable then p.starters ++ q.starters else p.starters
  | .either p q => p.starters ++ q.starters
  | .maybe p | .many p => p.starters

/-- No production has the empty word. -/
theorem nullable_production (s : Symbol) : (production s).nullable = false := by
  cases s <;> rfl

/-- The table of first types agrees with the productions. -/
theorem starters_production (s : Symbol) : ∀ t ∈ (production s).starters, t ∈ s.starters := by
  cases s <;> decide

/-- A phrase with the empty word is known to have it. -/
theorem nullable_of_derives {p : Phrase} {u : Word} (h : Derives p u) (none : u = []) :
    p.nullable = true := by
  induction h with
  | oneOf => cases none
  | symbol _ ih => exact absurd (ih none) (by simp [nullable_production])
  | empty | none | some | nil | cons => rfl
  | seq _ _ left right =>
    obtain ⟨one, two⟩ := List.append_eq_nil_iff.1 none
    simp [Phrase.nullable, left one, right two]
  | left _ ih | right _ ih => simp [Phrase.nullable, ih none]

/-- The words of a phrase without the empty word are not empty. -/
theorem ne_nil_of_derives {p : Phrase} {u : Word} (h : Derives p u) (proper : p.nullable = false) :
    u ≠ [] := fun none => by simp [nullable_of_derives h none] at proper

/-- The words of a phrase start with one of its first types. -/
theorem mem_starters_of_derives {p : Phrase} {t : TokenType} {u : Word} (h : Derives p (t :: u)) :
    t ∈ p.starters := by
  -- The word is generalized, as the cases of the derivation name their own.
  generalize word : t :: u = v at h
  induction h generalizing t u with
  | oneOf mem =>
    obtain ⟨rfl, -⟩ := List.cons.inj word
    exact mem
  | symbol _ ih => exact starters_production _ _ (ih word)
  | empty | none | nil => cases word
  | @seq p q v w one _ left right =>
    rcases List.cons_eq_append_iff.1 word with ⟨rfl, rfl⟩ | ⟨v, rfl, rfl⟩
    · -- The first phrase gives nothing, so the word starts as those of the second one do.
      simp only [Phrase.starters, nullable_of_derives one rfl, if_true]
      exact List.mem_append_right _ (right rfl)
    · have mem := left rfl
      unfold Phrase.starters
      split
      · exact List.mem_append_left _ mem
      · exact mem
  | left _ ih => exact List.mem_append_left _ (ih word)
  | right _ ih => exact List.mem_append_right _ (ih word)
  | some _ ih => exact ih word
  | @cons p v w _ _ first rest =>
    rcases List.cons_eq_append_iff.1 word with ⟨rfl, rfl⟩ | ⟨v, rfl, rfl⟩
    · exact rest rfl
    · exact first rfl

/-! ## Phrases have words -/

/-- Whether a phrase has words, as far as it is known which symbols have. -/
def Phrase.hasWords (known : Symbol → Bool) : Phrase → Bool
  | .oneOf types => !types.isEmpty
  | .symbol s => known s
  | .empty | .maybe _ | .many _ => true
  | .seq p q => p.hasWords known && q.hasWords known
  | .either p q => p.hasWords known || q.hasWords known

/-- Which symbols are known to have words after some rounds over the productions. -/
def knownAfter : Nat → Symbol → Bool
  | 0, _ => false
  | n + 1, s => (production s).hasWords (knownAfter n)

/-- A phrase that is known to have words has one. -/
theorem exists_of_hasWords {known : Symbol → Bool}
    (right : ∀ s, known s = true → ∃ u, Derives (.symbol s) u) {p : Phrase}
    (h : p.hasWords known = true) : ∃ u, Derives p u := by
  induction p with
  | oneOf types =>
    cases types with
    | nil => simp [Phrase.hasWords] at h
    | cons t types => exact ⟨[t], .oneOf List.mem_cons_self⟩
  | symbol s => exact right s h
  | empty => exact ⟨[], .empty⟩
  | seq p q left right =>
    simp only [Phrase.hasWords, Bool.and_eq_true] at h
    obtain ⟨u, one⟩ := left h.1
    obtain ⟨v, two⟩ := right h.2
    exact ⟨u ++ v, .seq one two⟩
  | either p q left right =>
    simp only [Phrase.hasWords, Bool.or_eq_true] at h
    rcases h with h | h
    · exact (left h).imp fun u => .left
    · exact (right h).imp fun u => .right
  | maybe p => exact ⟨[], .none⟩
  | many p => exact ⟨[], .nil⟩

/-- Every symbol has words. -/
theorem exists_derives_symbol (s : Symbol) : ∃ u, Derives (.symbol s) u := by
  have sound : ∀ n s, knownAfter n s = true → ∃ u, Derives (.symbol s) u := by
    intro n
    induction n with
    | zero => exact fun s h => by simp [knownAfter] at h
    | succ n ih => exact fun s h => (exists_of_hasWords ih h).imp fun u => .symbol
  -- Fifteen rounds are enough for all symbols.
  exact sound 15 s (by cases s <;> decide)

/-- A phrase has words if each choice in it has something to choose. -/
theorem exists_derives {p : Phrase} (h : p.hasWords (fun _ => true) = true) : ∃ u, Derives p u :=
  exists_of_hasWords (fun s _ => exists_derives_symbol s) h

end Lox.Ebnf
