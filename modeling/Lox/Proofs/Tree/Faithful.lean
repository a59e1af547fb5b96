import Lox.Proofs.Tree.Dump
import Lox.Proofs.Tree.WellFormed

/-!
# Faithful dumps

What the dump of a well-formed tree shows is the tree, but for the lines of its tokens if these are
not asked for (`Stmt.eq_of_seen`): the text of a token tells its type, because a name is no keyword
and each operator has a text of its own. Equality of trees is stated on data as well, and two
well-formed trees are equal as data only if they are the same tree.
-/

namespace Lox

namespace Datum

/-- Literals with the same datum are the same. -/
theorem toDatum_inj {value value' : Literal} :
    value.toDatum = value'.toDatum ↔ value = value' := by
  cases value <;> cases value' <;> simp [Literal.toDatum]

/-- A number without a sign is equal to itself alone. -/
theorem equal_number {x y : Binary64} (plain : x.Plain) (plain' : y.Plain) :
    x.equal y = true ↔ x = y := by
  constructor
  · exact fun same => Binary64.eq_of_equal same (plain.1.trans plain'.1.symm)
  · rintro rfl
    simp [Binary64.equal, plain.2]

/-- A value is equal to itself alone. -/
theorem equal_value {value value' : Literal} (legible : value.Legible) (legible' : value'.Legible) :
    (value.toDatum.sameType value'.toDatum && value.toDatum.equal value'.toDatum) = true ↔
      value = value' := by
  cases value with
  | number x =>
    cases value' with
    | number y => simpa [Literal.toDatum, sameType, equal] using equal_number legible legible'
    | nil | bool | text => simp [Literal.toDatum, sameType]
  | nil | bool | text => cases value' <;> simp [Literal.toDatum, sameType, equal]

/-- A token without a value is equal to itself alone. -/
theorem equal_token {t u : Token} (plain : t.literal = Option.none)
    (plain' : u.literal = Option.none) :
    equalToken t u = true ↔ t = u := by
  obtain ⟨type, lexeme, line, literal⟩ := t
  obtain ⟨type', lexeme', line', literal'⟩ := u
  obtain rfl : literal = Option.none := plain
  obtain rfl : literal' = Option.none := plain'
  simp [equalToken, equalValue, and_assoc]

/-- Rows of data are equal to themselves alone if their items are. -/
theorem equalAll_iff_eq {ds ds' : List Datum}
    (items : ∀ d ∈ ds, ∀ d' ∈ ds', (d.equal d' = true ↔ d = d')) :
    equalAll ds ds' = true ↔ ds = ds' := by
  induction ds generalizing ds' with
  | nil => cases ds' <;> simp [equalAll]
  | cons d ds ih =>
    cases ds' with
    | nil => simp [equalAll]
    | cons d' ds' =>
      have first := items d (List.mem_cons_self ..) d' (List.mem_cons_self ..)
      have others := ih fun e mem e' mem' =>
        items e (List.mem_cons_of_mem _ mem) e' (List.mem_cons_of_mem _ mem')
      rw [equalAll, Bool.and_eq_true, first, others, List.cons.injEq]

/-- A datum that is built like a tree is equal to itself alone. -/
theorem equal_iff_eq {d d' : Datum} (regular : d.Regular) (regular' : d'.Regular) :
    d.equal d' = true ↔ d = d' := by
  -- By induction on the one datum, and by cases on the other: data of different forms are neither
  -- equal nor the same.
  induction regular generalizing d' with
  | none => cases regular' <;> simp [equal]
  | token _ plain =>
    cases regular' with
    | token _ plain' => rw [equal, equal_token plain plain', Datum.token.injEq]
    | none | tuple | literal | node => simp [equal]
  | tuple _ ih =>
    cases regular' with
    | tuple regular' =>
      rw [equal, equalAll_iff_eq fun d mem d' mem' => ih d mem (regular' d' mem'),
        Datum.tuple.injEq]
    | none | token | literal | node => simp [equal]
  | literal legible =>
    cases regular' with
    | @literal value' legible' =>
      simpa [equal, equalAll, toDatum_inj] using equal_value legible legible'
    | node other => simp [equal, other.symm]
    | none | token | tuple => simp [equal]
  | node other _ _ ih =>
    cases regular' with
    | literal => simp [equal, other]
    | node other' _ regular' =>
      simp [equal, other, equalAll_iff_eq fun d mem d' mem' => ih d mem (regular' d' mem')]
    | none | token | tuple => simp [equal]

/-- Two rows of data are shown alike, one by one. -/
def PartsSeen (lines : Bool) : List Datum → List Datum → Prop
  | [], [] => True
  | d :: ds, d' :: ds' => d.seen lines = d'.seen lines ∧ PartsSeen lines ds ds'
  | _, _ => False

/-- Nodes that are shown alike have parts that are. -/
theorem parts_of_seen {lines : Bool} {kind kind' : Kind} {ds ds' : List Datum}
    (same : (node kind ds).seen lines = (node kind' ds').seen lines) : PartsSeen lines ds ds' := by
  have parts : seenAll lines ds = seenAll lines ds' := (Datum.node.inj same).2
  clear same
  induction ds generalizing ds' with
  | nil =>
    cases ds' with
    | nil => trivial
    | cons => cases parts
  | cons d ds ih =>
    cases ds' with
    | nil => cases parts
    | cons d' ds' =>
      obtain ⟨first, others⟩ := List.cons.inj parts
      exact ⟨first, ih others⟩

end Datum

/-! ## Tokens -/

/-- Parts of two trees are the same but for lines, and the same with their lines if these are asked
for. -/
def Alike {α : Type} (erased : α → α) (lines : Bool) (a b : α) : Prop :=
  erased a = erased b ∧ (lines = true → a = b)

namespace Alike

variable {α β γ δ : Type} {removeα : α → α} {removeβ : β → β} {removeγ : γ → γ} {remove : δ → δ}
  {lines : Bool} {a a' : α} {b b' : β} {c c' : γ}

/-- What is built of a part is alike if the part is. -/
theorem map {f : α → δ} (build : ∀ a, remove (f a) = f (removeα a)) (h : Alike removeα lines a a') :
    Alike remove lines (f a) (f a') :=
  ⟨by rw [build, build, h.1], fun on => by rw [h.2 on]⟩

/-- What is built of two parts is alike if these are. -/
theorem map₂ {f : α → β → δ} (build : ∀ a b, remove (f a b) = f (removeα a) (removeβ b))
    (h : Alike removeα lines a a') (h' : Alike removeβ lines b b') :
    Alike remove lines (f a b) (f a' b') :=
  ⟨by rw [build, build, h.1, h'.1], fun on => by rw [h.2 on, h'.2 on]⟩

/-- What is built of three parts is alike if these are. -/
theorem map₃ {f : α → β → γ → δ}
    (build : ∀ a b c, remove (f a b c) = f (removeα a) (removeβ b) (removeγ c))
    (h : Alike removeα lines a a') (h' : Alike removeβ lines b b')
    (h'' : Alike removeγ lines c c') :
    Alike remove lines (f a b c) (f a' b' c') :=
  ⟨by rw [build, build, h.1, h'.1, h''.1], fun on => by rw [h.2 on, h'.2 on, h''.2 on]⟩

end Alike

namespace Token

variable {t u : Token} {type : TokenType} {lines : Bool}

/-- A name is a token with a text and no value. -/
theorem IsName.regular (h : t.IsName) : (Datum.token t).Regular :=
  .token (congrArg lexeme h) (congrArg literal h)

/-- A sign is a token with a text and no value. -/
theorem IsSign.regular (h : t.IsSign type) : (Datum.token t).Regular :=
  .token (congrArg lexeme h) (congrArg literal h)

/-- Tokens of one type without values are alike if they are shown alike. -/
theorem alike_of_seen (types : t.type = u.type) (plain : t.literal = none)
    (plain' : u.literal = none) (same : (Datum.token t).seen lines = (Datum.token u).seen lines) :
    Alike erased lines t u := by
  have same := Datum.token.inj same
  obtain ⟨type, lexeme, line, literal⟩ := t
  obtain ⟨type', lexeme', line', literal'⟩ := u
  cases lines <;> simp_all [Alike, erased, Datum.seenToken]

/-- Names are alike if they are shown alike. -/
theorem IsName.alike (h : t.IsName) (h' : u.IsName)
    (same : (Datum.token t).seen lines = (Datum.token u).seen lines) : Alike erased lines t u :=
  alike_of_seen (h.type_eq.trans h'.type_eq.symm) (congrArg literal h) (congrArg literal h') same

/-- Signs of one type are alike if they are shown alike. -/
theorem IsSign.alike (h : t.IsSign type) (h' : u.IsSign type)
    (same : (Datum.token t).seen lines = (Datum.token u).seen lines) : Alike erased lines t u :=
  alike_of_seen (h.type_eq.trans h'.type_eq.symm) (congrArg literal h) (congrArg literal h') same

/-- The types whose tokens all have one text are told apart by it. -/
theorem type_eq_of_text {type' : TokenType} (spelled : type.text ≠ "")
    (same : type.text = type'.text) : type = type' := by
  have distinct : ∀ a ∈ TokenType.all, ∀ b ∈ TokenType.all,
      a.text ≠ "" → a.text = b.text → a = b := by
    decide +kernel
  exact distinct type type.mem_all type' type'.mem_all spelled same

/-- Operators are alike if they are shown alike. -/
theorem IsSign.alike_operator (spelled : t.type.text ≠ "") (h : t.IsSign t.type)
    (h' : u.IsSign u.type) (same : (Datum.token t).seen lines = (Datum.token u).seen lines) :
    Alike erased lines t u := by
  have texts := congrArg lexeme (Datum.token.inj same)
  change t.lexeme = u.lexeme at texts
  have text : t.lexeme = some t.type.text := congrArg Token.lexeme h
  have text' : u.lexeme = some u.type.text := congrArg Token.lexeme h'
  rw [text, text', Option.some.injEq] at texts
  exact alike_of_seen (type_eq_of_text spelled texts) (congrArg literal h)
    (congrArg literal h') same

end Token

/-- Rows are alike if their items are, where these are shown alike. -/
theorem alike_of_map {α : Type} {erased : α → α} {lines : Bool} {f : α → Datum} {as bs : List α}
    (items : ∀ a ∈ as, ∀ b ∈ bs, f a = f b → Alike erased lines a b)
    (same : as.map f = bs.map f) : Alike (List.map erased) lines as bs := by
  induction as generalizing bs with
  | nil =>
    obtain rfl : bs = [] := List.map_eq_nil_iff.1 same.symm
    exact ⟨rfl, fun _ => rfl⟩
  | cons a as ih =>
    cases bs with
    | nil => cases same
    | cons b bs =>
      rw [List.map_cons, List.map_cons, List.cons.injEq] at same
      have first := items a (List.mem_cons_self ..) b (List.mem_cons_self ..) same.1
      have others := ih (fun a mem b mem' =>
        items a (List.mem_cons_of_mem _ mem) b (List.mem_cons_of_mem _ mem')) same.2
      exact .map₂ (fun _ _ => rfl) first others

/-- Rows are alike if their items are, where the rows are shown alike. -/
theorem alike_of_tuple {α : Type} {erased : α → α} {lines : Bool} {f : α → Datum} {as bs : List α}
    (items : ∀ a ∈ as, ∀ b ∈ bs, (f a).seen lines = (f b).seen lines → Alike erased lines a b)
    (same : (Datum.tuple (as.map f)).seen lines = (Datum.tuple (bs.map f)).seen lines) :
    Alike (List.map erased) lines as bs := by
  have rows := Datum.tuple.inj same
  rw [Datum.seenAll_eq_map, Datum.seenAll_eq_map, List.map_map, List.map_map] at rows
  exact alike_of_map items rows

/-! ## Expressions -/

namespace Expr

/-- Each of some expressions is a datum. -/
theorem toDatumAll_eq_map (es : List Expr) : toDatumAll es = es.map toDatum := by
  induction es with
  | nil => rfl
  | cons e es ih => rw [toDatumAll, ih, List.map_cons]

/-- A well-formed expression is a datum built like a tree. -/
theorem Shaped.regular {e : Expr} (shaped : e.Shaped) (legible : e.Legible) :
    e.toDatum.Regular := by
  -- A datum that is built like a tree has the fields of its kind, and they are built like trees by
  -- induction.
  induction shaped with
  | assign isName _ ih =>
    cases legible with
    | assign _ value => exact .node (by decide) rfl (by simpa using ⟨isName.regular, ih value⟩)
  | binary _ isSign _ _ _ _ ih ih' =>
    cases legible with
    | binary _ left right =>
      exact .node (by decide) rfl (by simpa using ⟨ih left, isSign.regular, ih' right⟩)
  | logical _ isSign _ _ _ _ ih ih' =>
    cases legible with
    | logical _ left right =>
      exact .node (by decide) rfl (by simpa using ⟨ih left, isSign.regular, ih' right⟩)
  | @call _ _ es _ isSign _ _ ih ih' =>
    cases legible with
    | call callee arguments =>
      have items : (Datum.tuple (toDatumAll es)).Regular := by
        rw [toDatumAll_eq_map]
        exact .tuple (List.forall_mem_map.2 fun e mem => ih' e mem (arguments e mem))
      exact .node (by decide) rfl (by simpa using ⟨ih callee, isSign.regular, items⟩)
  | get _ isName _ ih =>
    cases legible with
    | get _ object => exact .node (by decide) rfl (by simpa using ⟨ih object, isName.regular⟩)
  | grouping _ ih =>
    cases legible with
    | grouping inner => exact .node (by decide) rfl (by simpa using ih inner)
  | literal value =>
    cases legible with
    | literal legible => exact .literal legible
  | set _ isName _ _ ih ih' =>
    cases legible with
    | set _ object value =>
      exact .node (by decide) rfl (by simpa using ⟨ih object, isName.regular, ih' value⟩)
  | super isSign isName =>
    exact .node (by decide) rfl (by simpa using ⟨isSign.regular, isName.regular⟩)
  | this isSign => exact .node (by decide) rfl (by simpa using isSign.regular)
  | unary _ isSign _ _ ih =>
    cases legible with
    | unary _ _ right => exact .node (by decide) rfl (by simpa using ⟨isSign.regular, ih right⟩)
  | named isName => exact .node (by decide) rfl (by simpa using isName.regular)

/-- The text of a binary operator is not empty. -/
theorem text_ne_of_rank {type : TokenType} (rank : 3 ≤ operatorRank type) : type.text ≠ "" := by
  revert rank
  cases type <;> decide

open Datum (seen)

/-- A value is shown as it is. -/
@[simp] theorem seen_literal (lines : Bool) (value : Literal) :
    value.toDatum.seen lines = value.toDatum := by
  cases value <;> rfl

/-- Shaped expressions are alike if they are shown alike. -/
theorem Shaped.alike {e e' : Expr} {lines : Bool} (shaped : e.Shaped) (shaped' : e'.Shaped)
    (same : e.toDatum.seen lines = e'.toDatum.seen lines) : Alike erased lines e e' := by
  -- By induction on the one expression, and by cases on the other. What differs in its kind is
  -- shown differently; what is of one kind is compared part by part.
  induction shaped generalizing e' with
  | assign isName _ ih =>
    cases shaped' with
    | assign isName' shaped' =>
      obtain ⟨nameSeen, valueSeen, -⟩ := Datum.parts_of_seen same
      have name := isName.alike isName' nameSeen
      have value := ih shaped' valueSeen
      exact .map₂ (fun _ _ => rfl) name value
    | _ => simp [toDatum, seen] at same
  | binary rank isSign _ _ _ _ ih ih' =>
    cases shaped' with
    | binary _ isSign' _ _ left' right' =>
      obtain ⟨leftSeen, operatorSeen, rightSeen, -⟩ := Datum.parts_of_seen same
      have left := ih left' leftSeen
      have operator := isSign.alike_operator (text_ne_of_rank rank) isSign' operatorSeen
      have right := ih' right' rightSeen
      exact .map₃ (fun _ _ _ => rfl) left operator right
    | _ => simp [toDatum, seen] at same
  | logical mem isSign _ _ _ _ ih ih' =>
    cases shaped' with
    | logical _ isSign' _ _ left' right' =>
      obtain ⟨leftSeen, operatorSeen, rightSeen, -⟩ := Datum.parts_of_seen same
      have spelled : ∀ type ∈ [TokenType.orKw, .andKw], type.text ≠ "" := by decide
      have left := ih left' leftSeen
      have operator := isSign.alike_operator (spelled _ mem) isSign' operatorSeen
      have right := ih' right' rightSeen
      exact .map₃ (fun _ _ _ => rfl) left operator right
    | _ => simp [toDatum, seen] at same
  | call _ isSign _ _ ih ih' =>
    cases shaped' with
    | call _ isSign' callee' arguments' =>
      obtain ⟨calleeSeen, parenSeen, argumentsSeen, -⟩ := Datum.parts_of_seen same
      rw [toDatumAll_eq_map, toDatumAll_eq_map] at argumentsSeen
      have callee := ih callee' calleeSeen
      have paren := isSign.alike isSign' parenSeen
      have arguments :=
        alike_of_tuple (fun a mem b mem' eq => ih' a mem (arguments' b mem') eq) argumentsSeen
      exact .map₃ (fun _ _ _ => by rw [erased, erasedAll_eq_map]) callee paren arguments
    | _ => simp [toDatum, seen] at same
  | get _ isName _ ih =>
    cases shaped' with
    | get _ isName' object' =>
      obtain ⟨objectSeen, nameSeen, -⟩ := Datum.parts_of_seen same
      have object := ih object' objectSeen
      have name := isName.alike isName' nameSeen
      exact .map₂ (fun _ _ => rfl) object name
    | _ => simp [toDatum, seen] at same
  | grouping _ ih =>
    cases shaped' with
    | grouping inner' =>
      obtain ⟨innerSeen, -⟩ := Datum.parts_of_seen same
      have inner := ih inner' innerSeen
      exact .map (fun _ => rfl) inner
    | _ => simp [toDatum, seen] at same
  | literal value =>
    cases shaped' with
    | literal value' =>
      obtain ⟨valueSeen, -⟩ := Datum.parts_of_seen same
      rw [seen_literal, seen_literal, Datum.toDatum_inj] at valueSeen
      exact ⟨by rw [valueSeen], fun _ => by rw [valueSeen]⟩
    | _ => simp [toDatum, seen] at same
  | set _ isName _ _ ih ih' =>
    cases shaped' with
    | set _ isName' object' value' =>
      obtain ⟨objectSeen, nameSeen, valueSeen, -⟩ := Datum.parts_of_seen same
      have object := ih object' objectSeen
      have name := isName.alike isName' nameSeen
      have value := ih' value' valueSeen
      exact .map₃ (fun _ _ _ => rfl) object name value
    | _ => simp [toDatum, seen] at same
  | super isSign isName =>
    cases shaped' with
    | super isSign' isName' =>
      obtain ⟨keywordSeen, methodSeen, -⟩ := Datum.parts_of_seen same
      have keyword := isSign.alike isSign' keywordSeen
      have method := isName.alike isName' methodSeen
      exact .map₂ (fun _ _ => rfl) keyword method
    | _ => simp [toDatum, seen] at same
  | this isSign =>
    cases shaped' with
    | this isSign' =>
      obtain ⟨keywordSeen, -⟩ := Datum.parts_of_seen same
      have keyword := isSign.alike isSign' keywordSeen
      exact .map (fun _ => rfl) keyword
    | _ => simp [toDatum, seen] at same
  | unary mem isSign _ _ ih =>
    cases shaped' with
    | unary _ isSign' _ right' =>
      obtain ⟨operatorSeen, rightSeen, -⟩ := Datum.parts_of_seen same
      have spelled : ∀ type ∈ [TokenType.bang, .minus], type.text ≠ "" := by decide
      have operator := isSign.alike_operator (spelled _ mem) isSign' operatorSeen
      have right := ih right' rightSeen
      exact .map₂ (fun _ _ => rfl) operator right
    | _ => simp [toDatum, seen] at same
  | named isName =>
    cases shaped' with
    | named isName' =>
      obtain ⟨nameSeen, -⟩ := Datum.parts_of_seen same
      have name := isName.alike isName' nameSeen
      exact .map (fun _ => rfl) name
    | _ => simp [toDatum, seen] at same

/-- An expression is shown as a node. -/
theorem seen_ne_none (lines : Bool) (e : Expr) : e.toDatum.seen lines ≠ .none := by
  cases e <;> simp [toDatum, seen]

/-- Shaped expressions that may be missing are alike if they are shown alike. -/
theorem alike_option {value value' : Option Expr} {lines : Bool}
    (shaped : ∀ e ∈ value, e.Shaped) (shaped' : ∀ e ∈ value', e.Shaped)
    (same : (toDatumOption value).seen lines = (toDatumOption value').seen lines) :
    Alike (Option.map erased) lines value value' := by
  -- What is missing is shown as nothing, and no expression is.
  cases value with
  | none =>
    cases value' with
    | none => exact ⟨rfl, fun _ => rfl⟩
    | some e' => exact absurd same.symm (seen_ne_none lines e')
  | some e =>
    cases value' with
    | none => exact absurd same (seen_ne_none lines e)
    | some e' =>
      have inner := (shaped e rfl).alike (shaped' e' rfl) same
      exact .map (fun _ => rfl) inner

/-- A well-formed expression that may be missing is a datum built like a tree. -/
theorem regular_option {value : Option Expr} (shaped : ∀ e ∈ value, e.Shaped)
    (legible : ∀ e ∈ value, e.Legible) : (toDatumOption value).Regular := by
  cases value with
  | none => exact .none
  | some e => exact (shaped e rfl).regular (legible e rfl)

end Expr

/-! ## Statements -/

/-- Each of some statements is a datum. -/
theorem Stmt.toDatumAll_eq_map (ss : List Stmt) : Stmt.toDatumAll ss = ss.map Stmt.toDatum := by
  induction ss with
  | nil => rfl
  | cons s ss ih => rw [Stmt.toDatumAll, ih, List.map_cons]

/-- Each of some functions is a datum. -/
theorem Function.toDatumAll_eq_map (fs : List Function) :
    Function.toDatumAll fs = fs.map Function.toDatum := by
  induction fs with
  | nil => rfl
  | cons f fs ih => rw [Function.toDatumAll, ih, List.map_cons]

namespace Stmt

/-- The names of parameters are data built like trees. -/
theorem regular_params {params : List Token} (names : ∀ t ∈ params, t.IsName) :
    (Datum.tuple (params.map .token)).Regular :=
  .tuple (List.forall_mem_map.2 fun t mem => (names t mem).regular)

/-- The name of a superclass that may be missing is a datum built like a tree. -/
theorem regular_superclass {superclass : Option Token} (names : ∀ t ∈ superclass, t.IsName) :
    (superclassToDatum superclass).Regular := by
  cases superclass with
  | none => exact .none
  | some t => exact .node (by decide) rfl (by simpa using (names t rfl).regular)

/-- A well-formed statement is a datum built like a tree. -/
theorem Shaped.regular {s : Stmt} (shaped : s.Shaped) (legible : s.Legible) :
    s.toDatum.Regular := by
  induction shaped with
  | @block statements _ ih =>
    cases legible with
    | block legible =>
      have items : (Datum.tuple (Stmt.toDatumAll statements)).Regular := by
        rw [toDatumAll_eq_map]
        exact .tuple (List.forall_mem_map.2 fun s mem => ih s mem (legible s mem))
      exact .node (by decide) rfl (by simpa using items)
  | @function name params body isName names _ ih =>
    cases legible with
    | function _ _ legible =>
      have items : (Datum.tuple (Stmt.toDatumAll body)).Regular := by
        rw [toDatumAll_eq_map]
        exact .tuple (List.forall_mem_map.2 fun s mem => ih s mem (legible s mem))
      exact .node (by decide) rfl (by simpa using ⟨isName.regular, regular_params names, items⟩)
  | expression shaped =>
    cases legible with
    | expression legible => exact .node (by decide) rfl (by simpa using shaped.regular legible)
  | @classDecl name superclass methods isName parent _ ih =>
    cases legible with
    | classDecl _ _ legible =>
      have items : (Datum.tuple (Function.toDatumAll methods)).Regular := by
        rw [Function.toDatumAll_eq_map]
        exact .tuple (List.forall_mem_map.2 fun f mem => ih f mem (legible f mem))
      exact .node (by decide) rfl
        (by simpa using ⟨isName.regular, regular_superclass parent, items⟩)
  | ifThen shaped _ _ ih =>
    cases legible with
    | ifThen condition branch =>
      exact .node (by decide) rfl
        (by simpa using ⟨shaped.regular condition, ih branch, Datum.Regular.none⟩)
  | ifElse shaped _ _ _ _ _ ih ih' =>
    cases legible with
    | ifElse condition branch branch' =>
      exact .node (by decide) rfl
        (by simpa using ⟨shaped.regular condition, ih branch, ih' branch'⟩)
  | print shaped =>
    cases legible with
    | print legible => exact .node (by decide) rfl (by simpa using shaped.regular legible)
  | returns isSign shaped =>
    cases legible with
    | returns legible =>
      exact .node (by decide) rfl
        (by simpa using ⟨isSign.regular, Expr.regular_option shaped legible⟩)
  | varDecl isName shaped =>
    cases legible with
    | varDecl _ legible =>
      exact .node (by decide) rfl
        (by simpa using ⟨isName.regular, Expr.regular_option shaped legible⟩)
  | whileLoop shaped _ _ ih =>
    cases legible with
    | whileLoop condition body =>
      exact .node (by decide) rfl (by simpa using ⟨shaped.regular condition, ih body⟩)

open Datum (seen)

/-- A statement is shown as a node. -/
theorem seen_ne_none (lines : Bool) (s : Stmt) : s.toDatum.seen lines ≠ .none := by
  cases s with
  | function f => cases f <;> simp [toDatum, Function.toDatum, seen]
  | _ => simp [toDatum, seen]

/-- Names of parameters are alike if they are shown alike. -/
theorem alike_params {params params' : List Token} {lines : Bool} (names : ∀ t ∈ params, t.IsName)
    (names' : ∀ t ∈ params', t.IsName)
    (same : (Datum.tuple (params.map .token)).seen lines =
      (Datum.tuple (params'.map .token)).seen lines) :
    Alike (List.map Token.erased) lines params params' :=
  alike_of_tuple (fun t mem u mem' eq => (names t mem).alike (names' u mem') eq) same

/-- Names of superclasses are alike if they are shown alike. -/
theorem alike_superclass {superclass superclass' : Option Token} {lines : Bool}
    (names : ∀ t ∈ superclass, t.IsName) (names' : ∀ t ∈ superclass', t.IsName)
    (same : (superclassToDatum superclass).seen lines =
      (superclassToDatum superclass').seen lines) :
    Alike (Option.map Token.erased) lines superclass superclass' := by
  -- A missing name is shown as nothing, and one that is there as a variable.
  cases superclass with
  | none =>
    cases superclass' with
    | none => exact ⟨rfl, fun _ => rfl⟩
    | some u => cases same
  | some t =>
    cases superclass' with
    | none => cases same
    | some u =>
      obtain ⟨nameSeen, -⟩ := Datum.parts_of_seen same
      have inner := (names t rfl).alike (names' u rfl) nameSeen
      exact .map (fun _ => rfl) inner

/-- Rows of statements are alike if they are shown alike. -/
theorem alike_rows {ss ss' : List Stmt} {lines : Bool}
    (items : ∀ s ∈ ss, ∀ s' ∈ ss', s.toDatum.seen lines = s'.toDatum.seen lines →
      Alike erased lines s s')
    (same : (Datum.tuple (Stmt.toDatumAll ss)).seen lines =
      (Datum.tuple (Stmt.toDatumAll ss')).seen lines) :
    Alike (List.map erased) lines ss ss' := by
  rw [toDatumAll_eq_map, toDatumAll_eq_map] at same
  exact alike_of_tuple items same

/-- Rows of methods are alike if they are shown alike. -/
theorem alike_methods {fs fs' : List Function} {lines : Bool}
    (items : ∀ f ∈ fs, ∀ f' ∈ fs', f.toDatum.seen lines = f'.toDatum.seen lines →
      Alike erased lines (.function f) (.function f'))
    (same : (Datum.tuple (Function.toDatumAll fs)).seen lines =
      (Datum.tuple (Function.toDatumAll fs')).seen lines) :
    Alike (List.map Function.erased) lines fs fs' := by
  rw [Function.toDatumAll_eq_map, Function.toDatumAll_eq_map] at same
  refine alike_of_tuple (fun f mem f' mem' eq => ?_) same
  have method := items f mem f' mem' eq
  exact ⟨Stmt.function.inj method.1, fun on => Stmt.function.inj (method.2 on)⟩

/-- Shaped statements are alike if they are shown alike. -/
theorem Shaped.alike {s s' : Stmt} {lines : Bool} (shaped : s.Shaped) (shaped' : s'.Shaped)
    (same : s.toDatum.seen lines = s'.toDatum.seen lines) : Alike erased lines s s' := by
  induction shaped generalizing s' with
  | block _ ih =>
    cases shaped' with
    | block statements' =>
      obtain ⟨itemsSeen, -⟩ := Datum.parts_of_seen same
      have items := alike_rows (fun s mem s' mem' eq => ih s mem (statements' s' mem') eq) itemsSeen
      exact .map (fun _ => by rw [erased, erasedAll_eq_map]) items
    | _ => simp [toDatum, Function.toDatum, seen] at same
  | function isName names _ ih =>
    cases shaped' with
    | function isName' names' body' =>
      obtain ⟨nameSeen, paramsSeen, bodySeen, -⟩ := Datum.parts_of_seen same
      have name := isName.alike isName' nameSeen
      have params := alike_params names names' paramsSeen
      have body := alike_rows (fun s mem s' mem' eq => ih s mem (body' s' mem') eq) bodySeen
      exact .map₃ (f := fun name params body => Stmt.function (.defined name params body))
        (fun _ _ _ => by rw [erased, Function.erased, erasedAll_eq_map]) name params body
    | _ => simp [toDatum, Function.toDatum, seen] at same
  | expression shaped =>
    cases shaped' with
    | expression shaped' =>
      obtain ⟨innerSeen, -⟩ := Datum.parts_of_seen same
      have e := shaped.alike shaped' innerSeen
      exact .map (fun _ => rfl) e
    | _ => simp [toDatum, Function.toDatum, seen] at same
  | classDecl isName parent _ ih =>
    cases shaped' with
    | classDecl isName' parent' methods' =>
      obtain ⟨nameSeen, superclassSeen, methodsSeen, -⟩ := Datum.parts_of_seen same
      have name := isName.alike isName' nameSeen
      have superclass := alike_superclass parent parent' superclassSeen
      have methods :=
        alike_methods (fun f mem f' mem' eq => ih f mem (methods' f' mem') eq) methodsSeen
      exact .map₃ (fun _ _ _ => by rw [erased, Function.erasedAll_eq_map]) name superclass methods
    | _ => simp [toDatum, Function.toDatum, seen] at same
  | ifThen shaped _ _ ih =>
    cases shaped' with
    | ifThen shaped' _ branch' =>
      obtain ⟨conditionSeen, branchSeen, -⟩ := Datum.parts_of_seen same
      have condition := shaped.alike shaped' conditionSeen
      have branch := ih branch' branchSeen
      exact .map₂ (fun _ _ => rfl) condition branch
    | ifElse =>
      -- The two are one kind of node, and told apart by the branch that is missing.
      obtain ⟨-, -, missingSeen, -⟩ := Datum.parts_of_seen same
      exact absurd missingSeen.symm (seen_ne_none lines _)
    | _ => simp [toDatum, Function.toDatum, seen] at same
  | ifElse shaped _ _ _ _ _ ih ih' =>
    cases shaped' with
    | ifElse shaped' _ _ _ branch branch' =>
      obtain ⟨conditionSeen, thenSeen, elseSeen, -⟩ := Datum.parts_of_seen same
      have condition := shaped.alike shaped' conditionSeen
      have thenBranch := ih branch thenSeen
      have elseBranch := ih' branch' elseSeen
      exact .map₃ (fun _ _ _ => rfl) condition thenBranch elseBranch
    | ifThen =>
      obtain ⟨-, -, missingSeen, -⟩ := Datum.parts_of_seen same
      exact absurd missingSeen (seen_ne_none lines _)
    | _ => simp [toDatum, Function.toDatum, seen] at same
  | print shaped =>
    cases shaped' with
    | print shaped' =>
      obtain ⟨innerSeen, -⟩ := Datum.parts_of_seen same
      have e := shaped.alike shaped' innerSeen
      exact .map (fun _ => rfl) e
    | _ => simp [toDatum, Function.toDatum, seen] at same
  | returns isSign shaped =>
    cases shaped' with
    | returns isSign' shaped' =>
      obtain ⟨keywordSeen, valueSeen, -⟩ := Datum.parts_of_seen same
      have keyword := isSign.alike isSign' keywordSeen
      have value := Expr.alike_option shaped shaped' valueSeen
      exact .map₂ (fun _ _ => rfl) keyword value
    | _ => simp [toDatum, Function.toDatum, seen] at same
  | varDecl isName shaped =>
    cases shaped' with
    | varDecl isName' shaped' =>
      obtain ⟨nameSeen, initializerSeen, -⟩ := Datum.parts_of_seen same
      have name := isName.alike isName' nameSeen
      have initializer := Expr.alike_option shaped shaped' initializerSeen
      exact .map₂ (fun _ _ => rfl) name initializer
    | _ => simp [toDatum, Function.toDatum, seen] at same
  | whileLoop shaped _ _ ih =>
    cases shaped' with
    | whileLoop shaped' _ body' =>
      obtain ⟨conditionSeen, bodySeen, -⟩ := Datum.parts_of_seen same
      have condition := shaped.alike shaped' conditionSeen
      have body := ih body' bodySeen
      exact .map₂ (fun _ _ => rfl) condition body
    | _ => simp [toDatum, Function.toDatum, seen] at same

end Stmt

/-! ## Lines -/

namespace Expr

mutual

/-- Removing lines from an expression twice is removing them once. -/
@[simp] theorem erased_erased : (e : Expr) → e.erased.erased = e.erased
  | assign _ value | grouping value | unary _ value => by simp [erased, erased_erased value]
  | binary left _ right | logical left _ right => by
    simp [erased, erased_erased left, erased_erased right]
  | call callee _ arguments => by simp [erased, erased_erased callee, erasedAll_erased arguments]
  | get object _ => by simp [erased, erased_erased object]
  | set object _ value => by simp [erased, erased_erased object, erased_erased value]
  | literal _ | super _ _ | this _ | named _ => by simp [erased]

/-- Removing lines from some expressions twice is removing them once. -/
@[simp] theorem erasedAll_erased : (es : List Expr) → erasedAll (erasedAll es) = erasedAll es
  | [] => rfl
  | e :: es => by simp [erasedAll, erased_erased e, erasedAll_erased es]

end

end Expr

mutual

/-- Removing lines from a statement twice is removing them once. -/
@[simp] theorem Stmt.erased_erased : (s : Stmt) → s.erased.erased = s.erased
  | .block statements => by simp [Stmt.erased, Stmt.erasedAll_erased statements]
  | .function f => by simp [Stmt.erased, Function.erased_erased f]
  | .expression _ | .print _ => by simp [Stmt.erased]
  | .classDecl _ superclass methods => by
    cases superclass <;> simp [Stmt.erased, Function.erasedAll_erased methods]
  | .ifThen _ thenBranch => by simp [Stmt.erased, Stmt.erased_erased thenBranch]
  | .ifElse _ thenBranch elseBranch => by
    simp [Stmt.erased, Stmt.erased_erased thenBranch, Stmt.erased_erased elseBranch]
  | .returns _ value | .varDecl _ value => by cases value <;> simp [Stmt.erased]
  | .whileLoop _ body => by simp [Stmt.erased, Stmt.erased_erased body]

/-- Removing lines from a function twice is removing them once. -/
@[simp] theorem Function.erased_erased : (f : Function) → f.erased.erased = f.erased
  | .declared _ _ => by simp [Function.erased, Function.comp_def]
  | .defined _ _ body => by
    simp [Function.erased, Function.comp_def, Stmt.erasedAll_erased body]

/-- Removing lines from some statements twice is removing them once. -/
@[simp] theorem Stmt.erasedAll_erased : (ss : List Stmt) →
    Stmt.erasedAll (Stmt.erasedAll ss) = Stmt.erasedAll ss
  | [] => rfl
  | s :: ss => by simp [Stmt.erasedAll, Stmt.erased_erased s, Stmt.erasedAll_erased ss]

/-- Removing lines from some functions twice is removing them once. -/
@[simp] theorem Function.erasedAll_erased : (fs : List Function) →
    Function.erasedAll (Function.erasedAll fs) = Function.erasedAll fs
  | [] => rfl
  | f :: fs => by simp [Function.erasedAll, Function.erased_erased f, Function.erasedAll_erased fs]

end

/-- A well-formed statement is well formed without lines. -/
theorem Stmt.WellFormed.without_lines {s : Stmt} (h : s.WellFormed) : s.erased.WellFormed :=
  h.congr s.erased_erased

/-! ## Programs -/

variable {a b : List Stmt}

/-- Well-formed statements are data built like trees. -/
theorem regular_of_wellFormed (h : ∀ s ∈ a, s.WellFormed) :
    ∀ d ∈ Stmt.toDatumAll a, d.Regular := by
  rw [Stmt.toDatumAll_eq_map]
  exact List.forall_mem_map.2 fun s mem => (h s mem).shaped.regular (h s mem).legible

/-- Well-formed statements are alike if they are dumped alike. -/
theorem alike_of_dump (ha : ∀ s ∈ a, s.WellFormed) (hb : ∀ s ∈ b, s.WellFormed) {lines : Bool}
    (same : dump lines a = dump lines b) : Alike (List.map Stmt.erased) lines a b := by
  have texts := String.ofList_injective same
  refine Stmt.alike_rows (fun s mem s' mem' eq => (ha s mem).shaped.alike (hb s' mem').shaped eq) ?_
  have rows := Datum.seenAll_eq_of_dump (regular_of_wellFormed ha) (regular_of_wellFormed hb) texts
  exact congrArg Datum.tuple rows

/-- Well-formed statements are equal as data only if they are the same. -/
theorem equalPrograms_iff (ha : ∀ s ∈ a, s.WellFormed) (hb : ∀ s ∈ b, s.WellFormed) :
    equalPrograms a b = true ↔ a = b := by
  have ra := regular_of_wellFormed ha
  have rb := regular_of_wellFormed hb
  rw [equalPrograms, Datum.equalAll_iff_eq fun d mem d' mem' =>
    Datum.equal_iff_eq (ra d mem) (rb d' mem')]
  constructor
  · intro same
    have texts : dump true a = dump true b := by rw [dump, same, dump]
    exact (alike_of_dump ha hb texts).2 rfl
  · rintro rfl
    rfl

end Lox
