import Lox.Proofs.Grammar.Ebnf

/-!
# What may come behind a statement

A site says which words may stand somewhere and which types of tokens may come behind each of them.
Behind most phrases the same types may come whatever the word is, but not behind a statement: `else`
may come behind one only if the statement does not end in an `if` that lacks it. So far the grammar
is ambiguous, and a statement that ends in `if` may be cut in front of an `else` or behind what it
governs. `Marked` gives an `else` to the nearest `if`, and `exists_marked` says that nothing is lost
by it: every statement of the grammar is a marked one.
-/

namespace Lox.Ebnf

open Phrase (token row anyOf)

/-! ## Sites -/

/-- The types that come next where a phrase is followed by some types. -/
def Phrase.ahead (p : Phrase) (types : List TokenType) : List TokenType :=
  if p.nullable then p.starters ++ types else p.starters

/-- What comes next where a phrase is followed by a token. -/
theorem mem_ahead {p : Phrase} {types : List TokenType} {u : Word} {f : TokenType}
    (h : Derives p u) (mem : f ∈ types) : u.headD f ∈ p.ahead types := by
  unfold Phrase.ahead
  cases u with
  | nil =>
    rw [nullable_of_derives h rfl]
    exact List.mem_append_right _ mem
  | cons t u =>
    have first : t ∈ p.starters := mem_starters_of_derives h
    split
    · exact List.mem_append_left _ first
    · exact first

/-- Words that may stand somewhere, with the types that may come behind each of them. -/
structure Site where
  /-- A word may stand here with a token of a type behind it. -/
  allows : Word → TokenType → Prop
  /-- The types that may come first. -/
  starters : List TokenType
  /-- No other types come first. -/
  starts : ∀ ⦃u f⦄, allows u f → u.headD f ∈ starters

/-- Nothing more comes before one of some types. -/
def stop (types : List TokenType) : Site where
  allows u f := u = [] ∧ f ∈ types
  starters := types
  starts := by
    rintro _ f ⟨rfl, mem⟩
    exact mem

/-- A phrase comes in front of a site. -/
def andThen (p : Phrase) (Q : Site) : Site where
  allows u f := ∃ v w, u = v ++ w ∧ Derives p v ∧ Q.allows w f
  starters := p.ahead Q.starters
  starts := by
    rintro _ f ⟨v, w, rfl, one, two⟩
    have next : (v ++ w).headD f = v.headD (w.headD f) := by cases v <;> rfl
    rw [next]
    exact mem_ahead one (Q.starts two)

/-- Phrases come in front of a site, one after the other. -/
def within (ps : List Phrase) (Q : Site) : Site := ps.foldr andThen Q

/-- A phrase comes before one of some types. -/
def before (p : Phrase) (types : List TokenType) : Site := andThen p (stop types)

/-- The words before one of some types. -/
theorem allows_before {p : Phrase} {types : List TokenType} {u : Word} {f : TokenType} :
    (before p types).allows u f ↔ Derives p u ∧ f ∈ types := by
  constructor
  · rintro ⟨v, _, rfl, derives, rfl, mem⟩
    rw [List.append_nil]
    exact ⟨derives, mem⟩
  · rintro ⟨derives, mem⟩
    exact ⟨u, [], (List.append_nil u).symm, derives, rfl, mem⟩

/-- The words of a row in front of what a site allows. -/
theorem allows_within {ps : List Phrase} {Q : Site} {u v : Word} {f : TokenType}
    (h : Derives (row ps) u) (rest : Q.allows v f) : (within ps Q).allows (u ++ v) f := by
  induction ps generalizing u with
  | nil => rwa [derives_empty.1 h]
  | cons p ps ih =>
    obtain ⟨u, w, rfl, first, more⟩ := derives_seq.1 h
    exact ⟨u, w ++ v, List.append_assoc u w v, first, ih more⟩

/-- A row before one of some types, phrase by phrase. -/
theorem allows_within_stop {ps : List Phrase} {types : List TokenType} {u : Word} {f : TokenType} :
    (within ps (stop types)).allows u f ↔ Derives (row ps) u ∧ f ∈ types := by
  constructor
  · intro h
    induction ps generalizing u with
    | nil => exact ⟨derives_empty.2 h.1, h.2⟩
    | cons p ps ih =>
      obtain ⟨v, w, rfl, first, rest⟩ := h
      obtain ⟨more, mem⟩ := ih rest
      exact ⟨.seq first more, mem⟩
  · rintro ⟨derives, mem⟩
    simpa using allows_within derives (Q := stop types) (v := []) ⟨rfl, mem⟩

/-! ## Statements with a mark -/

/-- What comes in front of the body of a `for` loop. -/
def forHead : List Phrase :=
  [token .forKw, token .leftParen, anyOf [.symbol .varDecl, .symbol .exprStmt, token .semicolon],
    .maybe (.symbol .expression), token .semicolon, .maybe (.symbol .expression), token .rightParen]

/-- What comes in front of the body of a `while` loop. -/
def whileHead : List Phrase :=
  [token .whileKw, token .leftParen, .symbol .expression, token .rightParen]

/-- What comes in front of the first branch of an `if`. -/
def ifHead : List Phrase := [token .ifKw, token .leftParen, .symbol .expression, token .rightParen]

/-- The kinds of statement. -/
def kinds : List Symbol :=
  [.exprStmt, .forStmt, .ifStmt, .printStmt, .returnStmt, .whileStmt, .block]

/-- A statement is of one of the kinds. -/
theorem derives_statement {u : Word} :
    Derives (.symbol .statement) u ↔ ∃ s ∈ kinds, Derives (.symbol s) u := by
  have choice : production .statement = anyOf (kinds.map .symbol) := rfl
  rw [derives_symbol, choice, derives_anyOf]
  constructor
  · rintro ⟨_, choice, h⟩
    obtain ⟨s, mem, rfl⟩ := List.mem_map.1 choice
    exact ⟨s, mem, h⟩
  · rintro ⟨s, mem, h⟩
    exact ⟨_, List.mem_map_of_mem mem, h⟩

/-- The kinds of statement that do not end in a statement. -/
def plain : List Symbol := [.exprStmt, .printStmt, .returnStmt, .block]

/-- Statements, where an `else` belongs to the nearest `if`. The mark tells whether a statement ends
in an `if` without `else`. -/
inductive Marked : Bool → Word → Prop
  | plain {s : Symbol} {u : Word} : s ∈ plain → Derives (.symbol s) u → Marked false u
  | loop {head : List Phrase} {isOpen : Bool} {u v : Word} :
    head ∈ [forHead, whileHead] → Derives (row head) u → Marked isOpen v → Marked isOpen (u ++ v)
  | ifThen {isOpen : Bool} {u v : Word} :
    Derives (row ifHead) u → Marked isOpen v → Marked true (u ++ v)
  | ifElse {isOpen : Bool} {u v w : Word} :
    Derives (row ifHead) u → Marked false v → Marked isOpen w →
    Marked isOpen (u ++ (v ++ .elseKw :: w))

/-- An `else` behind a statement with an open `if` belongs to an `if` in that statement. -/
theorem exists_marked_else {isOpen isOpen' : Bool} {u w : Word} (h : Marked isOpen u)
    (isTrue : isOpen = true) (h' : Marked isOpen' w) : ∃ mark, Marked mark (u ++ .elseKw :: w) := by
  -- By induction on the statement, down to the nearest `if` that has no `else` yet.
  induction h with
  | plain => cases isTrue
  | loop mem head _ ih =>
    obtain ⟨mark, more⟩ := ih isTrue
    rw [List.append_assoc]
    exact ⟨mark, .loop mem head more⟩
  | @ifThen isOpen u v head body ih =>
    rw [List.append_assoc]
    cases isOpen with
    | false => exact ⟨isOpen', .ifElse head body h'⟩
    | true =>
      obtain ⟨mark, more⟩ := ih rfl
      exact ⟨true, .ifThen head more⟩
  | @ifElse isOpen u v x head body _ _ ih =>
    obtain ⟨mark, more⟩ := ih isTrue
    rw [List.append_assoc, List.append_assoc, List.cons_append]
    exact ⟨mark, .ifElse head body more⟩

/-- The statement behind a row and what may come behind the statement. -/
theorem statement_of_row (ps qs : List Phrase) {u : Word}
    (h : Derives (row (ps ++ .symbol .statement :: qs)) u) :
    ∃ v w x, u = v ++ (w ++ x) ∧ Derives (row ps) v ∧ Derives (.symbol .statement) w ∧
      Derives (row qs) x := by
  obtain ⟨v, y, rfl, head, rest⟩ := derives_row_append.1 h
  obtain ⟨w, x, rfl, body, tail⟩ := derives_seq.1 rest
  exact ⟨v, w, x, rfl, head, body, tail⟩

/-- A statement with a mark is one of the grammar. -/
theorem derives_of_marked {isOpen : Bool} {u : Word} (h : Marked isOpen u) :
    Derives (.symbol .statement) u := by
  -- The mark is forgotten; each form is one of the productions.
  induction h with
  | plain mem h =>
    have listed : ∀ s ∈ plain, s ∈ kinds := by decide
    exact derives_statement.2 ⟨_, listed _ mem, h⟩
  | loop mem head _ ih =>
    have body := derives_row_singleton.2 ih
    simp only [List.mem_cons, List.not_mem_nil, or_false] at mem
    rcases mem with rfl | rfl
    · exact derives_statement.2 ⟨.forStmt, by decide,
        .symbol (derives_row_append.2 ⟨_, _, rfl, head, body⟩)⟩
    · exact derives_statement.2 ⟨.whileStmt, by decide,
        .symbol (derives_row_append.2 ⟨_, _, rfl, head, body⟩)⟩
  | @ifThen _ _ v head _ ih =>
    have rest : Derives (row [.symbol .statement, .maybe (row [token .elseKw, .symbol .statement])])
        (v ++ []) := .seq ih (derives_row_singleton.2 .none)
    rw [List.append_nil] at rest
    exact derives_statement.2 ⟨.ifStmt, by decide,
      .symbol (derives_row_append.2 ⟨_, _, rfl, head, rest⟩)⟩
  | @ifElse _ _ v w head _ _ one two =>
    have other : Derives (row [token .elseKw, .symbol .statement]) (.elseKw :: w) :=
      .seq (derives_token.2 rfl) (derives_row_singleton.2 two)
    have rest : Derives (row [.symbol .statement, .maybe (row [token .elseKw, .symbol .statement])])
        (v ++ .elseKw :: w) := .seq one (derives_row_singleton.2 (.some other))
    exact derives_statement.2 ⟨.ifStmt, by decide,
      .symbol (derives_row_append.2 ⟨_, _, rfl, head, rest⟩)⟩

/-- Every statement of the grammar is one with a mark. -/
theorem exists_marked {u : Word} (h : Derives (.symbol .statement) u) :
    ∃ isOpen, Marked isOpen u := by
  -- By induction on the length, as the statements within a statement are shorter.
  induction n : u.length using Nat.strongRecOn generalizing u with
  | ind n ih =>
    have inner : ∀ {w : Word}, w.length < u.length → Derives (.symbol .statement) w →
        ∃ isOpen, Marked isOpen w := fun shorter h => ih _ (n ▸ shorter) h rfl
    have behind : ∀ {head : List Phrase} {v : Word}, (row head).nullable = false →
        Derives (row head) v → 0 < v.length := fun proper h =>
      List.length_pos_iff.2 (ne_nil_of_derives h proper)
    have loop : ∀ {head : List Phrase}, head ∈ [forHead, whileHead] → (row head).nullable = false →
        Derives (row (head ++ [.symbol .statement])) u → ∃ isOpen, Marked isOpen u := by
      intro head mem proper h
      obtain ⟨v, w, x, rfl, first, body, tail⟩ := statement_of_row head [] h
      have some := behind proper first
      obtain ⟨isOpen, marked⟩ := inner (by simp only [List.length_append]; omega) body
      rw [derives_empty.1 tail, List.append_nil]
      exact ⟨isOpen, .loop mem first marked⟩
    obtain ⟨s, mem, h⟩ := derives_statement.1 h
    have kind : s ∈ plain ∨ s = .forStmt ∨ s = .whileStmt ∨ s = .ifStmt := by
      revert mem
      cases s <;> decide
    rcases kind with mem | rfl | rfl | rfl
    · exact ⟨false, .plain mem h⟩
    · exact loop (List.mem_cons_self : forHead ∈ _) rfl (derives_symbol.1 h)
    · exact loop (show whileHead ∈ [forHead, whileHead] by simp) rfl (derives_symbol.1 h)
    · obtain ⟨v, w, x, rfl, head, body, tail⟩ := statement_of_row ifHead _ (derives_symbol.1 h)
      have some := behind rfl head
      obtain ⟨isOpen, marked⟩ := inner (by simp only [List.length_append]; omega) body
      rcases derives_maybe.1 (derives_row_singleton.1 tail) with rfl | branch
      · rw [List.append_nil]
        exact ⟨true, .ifThen head marked⟩
      · obtain ⟨y, z, rfl, keyword, other⟩ := derives_seq.1 branch
        obtain rfl := derives_token.1 keyword
        obtain ⟨isOpen', marked'⟩ := inner (by simp only [List.length_append]; omega)
          (derives_row_singleton.1 other)
        cases isOpen with
        | false => exact ⟨isOpen', .ifElse head marked marked'⟩
        | true =>
          -- The derivation gave the `else` to this `if`; the nearest one is in the first branch.
          obtain ⟨mark, more⟩ := exists_marked_else marked rfl marked'
          exact ⟨true, .ifThen head more⟩

/-! ## The sites of statements -/

/-- The types that may come behind a statement with a mark: behind an open one no `else`. -/
def followers : (isOpen : Bool) → List TokenType
  | true => .eof :: .rightBrace :: Grammar.declarationStarters
  | false => .elseKw :: .eof :: .rightBrace :: Grammar.declarationStarters

/-- What may come behind an open statement may come behind any. -/
theorem mem_followers {isOpen : Bool} {f : TokenType} (h : f ∈ followers true) :
    f ∈ followers isOpen := by
  cases isOpen with
  | true => exact h
  | false => exact List.mem_cons_of_mem _ h

/-- Where a statement stands. -/
def statementSite : Site where
  allows u f := ∃ isOpen, Marked isOpen u ∧ f ∈ followers isOpen
  starters := Grammar.statementStarters
  starts := by
    rintro u f ⟨isOpen, marked, mem⟩
    exact mem_ahead (derives_of_marked marked) mem

/-- Where the `else` of an `if` may stand. -/
def elseSite : Site where
  allows u f := u = [] ∧ f ∈ followers true ∨ ∃ v, u = .elseKw :: v ∧ statementSite.allows v f
  starters := .elseKw :: followers true
  starts := by
    rintro u f (⟨rfl, mem⟩ | ⟨v, rfl, -⟩)
    · exact List.mem_cons_of_mem _ mem
    · exact List.mem_cons_self

/-- Where the branches of an `if` stand. -/
def branchSite : Site where
  allows u f := ∃ v w, u = v ++ w ∧ statementSite.allows v (w.headD f) ∧ elseSite.allows w f
  starters := Grammar.statementStarters
  starts := by
    rintro _ f ⟨v, w, rfl, first, -⟩
    have next : (v ++ w).headD f = v.headD (w.headD f) := by cases v <;> rfl
    rw [next]
    exact statementSite.starts first

/-- Where a statement of a kind stands. -/
def kindSite : Symbol → Site
  | .forStmt => within forHead statementSite
  | .ifStmt => within ifHead branchSite
  | .whileStmt => within whileHead statementSite
  | s => before (.symbol s) (followers false)

/-- Behind a statement that does not end in a statement the same types may come whatever it is. -/
theorem kindSite_of_plain {s : Symbol} (h : s ∈ plain) :
    s ∈ kinds ∧ kindSite s = before (.symbol s) (followers false) := by
  simp only [plain, List.mem_cons, List.not_mem_nil, or_false] at h
  rcases h with rfl | rfl | rfl | rfl <;> exact ⟨by decide, rfl⟩

/-- Where a statement stands one of some kind does. -/
theorem exists_kind {u : Word} {f : TokenType} (h : statementSite.allows u f) :
    ∃ s ∈ kinds, (kindSite s).allows u f := by
  obtain ⟨isOpen, marked, mem⟩ := h
  -- What comes behind the whole comes behind its last statement.
  cases marked with
  | @plain s _ listed derives =>
    obtain ⟨among, site⟩ := kindSite_of_plain listed
    exact ⟨s, among, site ▸ allows_before.2 ⟨derives, mem⟩⟩
  | loop which head body =>
    have rest : statementSite.allows _ f := ⟨isOpen, body, mem⟩
    simp only [List.mem_cons, List.not_mem_nil, or_false] at which
    rcases which with rfl | rfl
    · exact ⟨.forStmt, by decide, allows_within head rest⟩
    · exact ⟨.whileStmt, by decide, allows_within head rest⟩
  | ifThen head body =>
    have rest : branchSite.allows _ f :=
      ⟨_, [], (List.append_nil _).symm, ⟨_, body, mem_followers mem⟩, .inl ⟨rfl, mem⟩⟩
    exact ⟨.ifStmt, by decide, allows_within head rest⟩
  | ifElse head body other =>
    have rest : branchSite.allows _ f :=
      ⟨_, _, rfl, ⟨false, body, List.mem_cons_self⟩, .inr ⟨_, rfl, isOpen, other, mem⟩⟩
    exact ⟨.ifStmt, by decide, allows_within head rest⟩

end Lox.Ebnf
