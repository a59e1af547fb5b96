import Lox.Proofs.Tree.Erased
import Lox.Proofs.Tree.Spelling

/-!
# The shape of trees

A tree has the shape of one that was read if its text needs no parentheses beside those of its
groupings: the operands of an operator bind tighter than it does (`Expr.rank`), an assignment stands
only where any expression may, and an `else` is not taken by an `if` inside the branch before it
(`Stmt.endsOpen`). The tokens of such a tree are what they are read back as, without their lines.

`Expr.nesting` and `Stmt.nesting` say how many levels of the grammar a tree needs, if it is spelled
as it is. They are one level for each expression, operand of a unary operator, statement and body of
a function on the way to the deepest part.
-/

namespace Lox

namespace Token

/-- A name is what it is read back as. -/
def IsName (t : Token) : Prop := t.erased = t.asName

/-- A token is the one of a type whose tokens all have the same text. -/
def IsSign (type : TokenType) (t : Token) : Prop := t.erased = sign type

/-- A sign has its type. -/
theorem IsSign.type_eq {type : TokenType} {t : Token} (h : t.IsSign type) : t.type = type :=
  congrArg Token.type h

/-- A name has the type of names. -/
theorem IsName.type_eq {t : Token} (h : t.IsName) : t.type = .identifier := congrArg Token.type h

end Token

/-- How tightly a binary operator binds: the tier that it stands in, from 1 for the loosest. -/
def operatorRank : TokenType → Nat
  | .orKw => 1
  | .andKw => 2
  | .bangEqual | .equalEqual => 3
  | .greater | .greaterEqual | .less | .lessEqual => 4
  | .minus | .plus => 5
  | .slash | .star => 6
  | _ => 0

namespace Expr

/-- How tightly an expression holds together: 0 for an assignment, the rank of its operator for an
operation, 7 for a unary operator, and 8 for calls and all that may be called. -/
def rank : Expr → Nat
  | assign _ _ | set _ _ _ => 0
  | binary _ operator _ | logical _ operator _ => operatorRank operator.type
  | unary _ _ => 7
  | call _ _ _ | get _ _ | grouping _ | literal _ | super _ _ | this _ | named _ => 8

/-- Nothing binds tighter than calls and what may be called. -/
theorem rank_le (e : Expr) : e.rank ≤ 8 := by
  have operators : ∀ type, operatorRank type ≤ 8 := by
    intro type
    cases type <;> decide
  cases e <;> simp [rank, operators]

/-- An expression has the shape of one that was read. -/
inductive Shaped : Expr → Prop
  | assign {name : Token} {value : Expr} : name.IsName → Shaped value → Shaped (.assign name value)
  | binary {left right : Expr} {operator : Token} :
    3 ≤ operatorRank operator.type → operator.IsSign operator.type →
    operatorRank operator.type ≤ left.rank → operatorRank operator.type < right.rank →
    Shaped left → Shaped right → Shaped (.binary left operator right)
  | logical {left right : Expr} {operator : Token} :
    operator.type ∈ [TokenType.orKw, .andKw] → operator.IsSign operator.type →
    operatorRank operator.type ≤ left.rank → operatorRank operator.type < right.rank →
    Shaped left → Shaped right → Shaped (.logical left operator right)
  | call {callee : Expr} {paren : Token} {arguments : List Expr} :
    callee.rank = 8 → paren.IsSign .rightParen → Shaped callee → (∀ e ∈ arguments, Shaped e) →
    Shaped (.call callee paren arguments)
  | get {object : Expr} {name : Token} :
    object.rank = 8 → name.IsName → Shaped object → Shaped (.get object name)
  | grouping {inner : Expr} : Shaped inner → Shaped (.grouping inner)
  | literal (value : Literal) : Shaped (.literal value)
  | set {object value : Expr} {name : Token} :
    object.rank = 8 → name.IsName → Shaped object → Shaped value → Shaped (.set object name value)
  | super {keyword method : Token} :
    keyword.IsSign .superKw → method.IsName → Shaped (.super keyword method)
  | this {keyword : Token} : keyword.IsSign .thisKw → Shaped (.this keyword)
  | unary {operator : Token} {right : Expr} :
    operator.type ∈ [TokenType.bang, .minus] → operator.IsSign operator.type → 7 ≤ right.rank →
    Shaped right → Shaped (.unary operator right)
  | named {name : Token} : name.IsName → Shaped (.named name)

mutual

/-- How many levels there are below the one that an expression is. -/
def nesting : Expr → Nat
  | assign _ value => value.nesting + 1
  | binary left _ right | logical left _ right => max left.nesting right.nesting
  | call callee _ arguments => max callee.nesting (nestingAll arguments)
  | get object _ => object.nesting
  | grouping inner => inner.nesting + 1
  | literal _ | super _ _ | this _ | named _ => 0
  | set object _ value => max object.nesting (value.nesting + 1)
  | unary _ right => right.nesting + 1

/-- How many levels some expressions need, which are one level each. -/
def nestingAll : List Expr → Nat
  | [] => 0
  | e :: es => max (e.nesting + 1) (nestingAll es)

end

/-- A number of levels is enough for some expressions if it is for each. -/
theorem nestingAll_le {n : Nat} {es : List Expr} :
    nestingAll es ≤ n ↔ ∀ e ∈ es, e.nesting + 1 ≤ n := by
  induction es with
  | nil => simp [nestingAll]
  | cons e es ih =>
    rw [nestingAll, Nat.max_le, ih]
    simp

/-- How many levels an expression needs that may be missing. -/
def nestingOption : Option Expr → Nat
  | some e => e.nesting + 1
  | none => 0

end Expr

namespace Stmt

/-- Whether an `else` after a statement would belong to an `if` inside it. -/
def endsOpen : Stmt → Bool
  | ifThen _ _ => true
  | ifElse _ _ elseBranch => elseBranch.endsOpen
  | whileLoop _ body => body.endsOpen
  | _ => false

/-- Whether a statement may stand only among declarations. -/
def isDeclaration : Stmt → Bool
  | function _ | classDecl _ _ _ | varDecl _ _ => true
  | _ => false

/-- A statement has the shape of one that was read. A method is shaped as a function is. -/
inductive Shaped : Stmt → Prop
  | block {statements : List Stmt} : (∀ s ∈ statements, Shaped s) → Shaped (.block statements)
  | function {name : Token} {params : List Token} {body : List Stmt} :
    name.IsName → (∀ t ∈ params, t.IsName) → (∀ s ∈ body, Shaped s) →
    Shaped (.function (.defined name params body))
  | expression {e : Expr} : e.Shaped → Shaped (.expression e)
  | classDecl {name : Token} {superclass : Option Token} {methods : List Function} :
    name.IsName → (∀ t ∈ superclass, t.IsName) → (∀ f ∈ methods, Shaped (.function f)) →
    Shaped (.classDecl name superclass methods)
  | ifThen {condition : Expr} {thenBranch : Stmt} :
    condition.Shaped → thenBranch.isDeclaration = false → Shaped thenBranch →
    Shaped (.ifThen condition thenBranch)
  | ifElse {condition : Expr} {thenBranch elseBranch : Stmt} :
    condition.Shaped → thenBranch.isDeclaration = false → thenBranch.endsOpen = false →
    elseBranch.isDeclaration = false → Shaped thenBranch → Shaped elseBranch →
    Shaped (.ifElse condition thenBranch elseBranch)
  | print {e : Expr} : e.Shaped → Shaped (.print e)
  | returns {keyword : Token} {value : Option Expr} :
    keyword.IsSign .returnKw → (∀ e ∈ value, e.Shaped) → Shaped (.returns keyword value)
  | varDecl {name : Token} {initializer : Option Expr} :
    name.IsName → (∀ e ∈ initializer, e.Shaped) → Shaped (.varDecl name initializer)
  | whileLoop {condition : Expr} {body : Stmt} :
    condition.Shaped → body.isDeclaration = false → Shaped body →
    Shaped (.whileLoop condition body)

end Stmt

mutual

/-- How many levels a declaration needs. A statement is one of them; the declaration of a variable
or a class is none by itself. -/
def Stmt.nesting : Stmt → Nat
  | .block statements => Stmt.nestingAll statements + 1
  | .function f => f.nesting
  | .expression e | .print e => e.nesting + 2
  | .classDecl _ _ methods => Function.nestingAll methods
  | .ifThen condition thenBranch => max (condition.nesting + 1) thenBranch.nesting + 1
  | .ifElse condition thenBranch elseBranch =>
    max (condition.nesting + 1) (max thenBranch.nesting elseBranch.nesting) + 1
  | .returns _ value => Expr.nestingOption value + 1
  | .varDecl _ initializer => Expr.nestingOption initializer
  | .whileLoop condition body => max (condition.nesting + 1) body.nesting + 1

/-- How many levels a function needs; its body is one of them. -/
def Function.nesting : Function → Nat
  | .declared _ _ => 1
  | .defined _ _ body => Stmt.nestingAll body + 1

/-- How many levels some declarations need. -/
def Stmt.nestingAll : List Stmt → Nat
  | [] => 0
  | s :: rest => max s.nesting (Stmt.nestingAll rest)

/-- How many levels some functions need. -/
def Function.nestingAll : List Function → Nat
  | [] => 0
  | f :: rest => max f.nesting (Function.nestingAll rest)

end

/-- A number of levels is enough for some declarations if it is for each. -/
theorem Stmt.nestingAll_le {n : Nat} {ss : List Stmt} :
    Stmt.nestingAll ss ≤ n ↔ ∀ s ∈ ss, s.nesting ≤ n := by
  induction ss with
  | nil => simp [Stmt.nestingAll]
  | cons s ss ih =>
    rw [Stmt.nestingAll, Nat.max_le, ih]
    simp

/-- A number of levels is enough for some functions if it is for each. -/
theorem Function.nestingAll_le {n : Nat} {fs : List Function} :
    Function.nestingAll fs ≤ n ↔ ∀ f ∈ fs, f.nesting ≤ n := by
  induction fs with
  | nil => simp [Function.nestingAll]
  | cons f fs ih =>
    rw [Function.nestingAll, Nat.max_le, ih]
    simp

/-! ## Lines -/

namespace Expr

mutual

/-- The levels of an expression do not show lines. -/
@[simp] theorem nesting_erased : (e : Expr) → e.erased.nesting = e.nesting
  | assign _ value | grouping value | unary _ value => by
    simp [erased, nesting, nesting_erased value]
  | binary left _ right | logical left _ right => by
    simp [erased, nesting, nesting_erased left, nesting_erased right]
  | call callee _ arguments => by
    simp [erased, nesting, nesting_erased callee, nestingAll_erased arguments]
  | get object _ => by simp [erased, nesting, nesting_erased object]
  | set object _ value => by simp [erased, nesting, nesting_erased object, nesting_erased value]
  | literal _ | super _ _ | this _ | named _ => by simp [erased, nesting]

/-- The levels of some expressions do not show lines. -/
@[simp] theorem nestingAll_erased : (es : List Expr) → nestingAll (erasedAll es) = nestingAll es
  | [] => rfl
  | e :: es => by simp [erasedAll, nestingAll, nesting_erased e, nestingAll_erased es]

end

/-- The levels of an expression that may be missing do not show lines. -/
@[simp] theorem nestingOption_erased (value : Option Expr) :
    nestingOption (value.map erased) = nestingOption value := by
  cases value <;> simp [nestingOption]

end Expr

mutual

/-- The levels of a statement do not show lines. -/
@[simp] theorem Stmt.nesting_erased : (s : Stmt) → s.erased.nesting = s.nesting
  | .block statements => by simp [Stmt.erased, Stmt.nesting, Stmt.nestingAll_erased statements]
  | .function f => by simp [Stmt.erased, Stmt.nesting, Function.nesting_erased f]
  | .expression _ | .print _ | .returns _ _ | .varDecl _ _ => by simp [Stmt.erased, Stmt.nesting]
  | .classDecl _ _ methods => by
    simp [Stmt.erased, Stmt.nesting, Function.nestingAll_erased methods]
  | .ifThen _ thenBranch => by simp [Stmt.erased, Stmt.nesting, Stmt.nesting_erased thenBranch]
  | .ifElse _ thenBranch elseBranch => by
    simp [Stmt.erased, Stmt.nesting, Stmt.nesting_erased thenBranch,
      Stmt.nesting_erased elseBranch]
  | .whileLoop _ body => by simp [Stmt.erased, Stmt.nesting, Stmt.nesting_erased body]

/-- The levels of a function do not show lines. -/
@[simp] theorem Function.nesting_erased : (f : Function) → f.erased.nesting = f.nesting
  | .declared _ _ => rfl
  | .defined _ _ body => by simp [Function.erased, Function.nesting, Stmt.nestingAll_erased body]

/-- The levels of some statements do not show lines. -/
@[simp] theorem Stmt.nestingAll_erased : (ss : List Stmt) →
    Stmt.nestingAll (Stmt.erasedAll ss) = Stmt.nestingAll ss
  | [] => rfl
  | s :: ss => by
    simp [Stmt.erasedAll, Stmt.nestingAll, Stmt.nesting_erased s, Stmt.nestingAll_erased ss]

/-- The levels of some functions do not show lines. -/
@[simp] theorem Function.nestingAll_erased : (fs : List Function) →
    Function.nestingAll (Function.erasedAll fs) = Function.nestingAll fs
  | [] => rfl
  | f :: fs => by
    simp [Function.erasedAll, Function.nestingAll, Function.nesting_erased f,
      Function.nestingAll_erased fs]

end

/-! ## Loops -/

/-- What holds for the tokens of some rows and for commas holds for the rows with commas between
them. -/
theorem Token.forall_mem_listed {P : Token → Prop} (comma : P (.sign .comma))
    {rows : List (List Token)} (h : ∀ ts ∈ rows, ∀ t ∈ ts, P t) : ∀ t ∈ listed rows, P t := by
  induction rows with
  | nil => exact List.forall_mem_nil _
  | cons ts rows ih =>
    rw [List.forall_mem_cons] at h
    -- A comma stands behind a row just if another one follows.
    cases rows with
    | nil => exact h.1
    | cons us rows =>
      rw [listed, List.forall_mem_append, List.forall_mem_cons]
      · exact ⟨h.1, comma, ih h.2⟩
      · exact List.cons_ne_nil us rows

/-- An expression is spelled without `for`. -/
theorem Expr.Shaped.spelling_ne_for {e : Expr} (shaped : e.Shaped) :
    ∀ t ∈ e.spelling, t.type ≠ .forKw := by
  -- Names and values are no keywords, and `for` is none of the operators that a shaped expression
  -- has.
  induction shaped with
  | assign _ _ ih => simpa [spelling] using ih
  | @binary left right operator rank _ _ _ _ _ ih ih' =>
    have other : operator.type ≠ .forKw := by
      intro other
      rw [other] at rank
      exact absurd rank (by decide)
    simpa [spelling, or_imp, forall_and] using ⟨ih, other, ih'⟩
  | @logical left right operator mem _ _ _ _ _ ih ih' =>
    have other : operator.type ≠ .forKw := by
      intro other
      rw [other] at mem
      exact absurd mem (by decide)
    simpa [spelling, or_imp, forall_and] using ⟨ih, other, ih'⟩
  | @call callee paren arguments _ _ _ _ ih ih' =>
    have inner : ∀ t ∈ Token.listed (spellings arguments), t.type ≠ .forKw := by
      rw [spellings_eq_map]
      exact Token.forall_mem_listed (by decide) (List.forall_mem_map.2 ih')
    simpa [spelling, or_imp, forall_and] using ⟨ih, inner⟩
  | get _ _ _ ih | grouping _ ih => simpa [spelling, or_imp, forall_and] using ih
  | literal value =>
    cases value with
    | bool b => cases b <;> decide
    | nil | number | text => simp [spelling, Literal.token, Token.plain]
  | set _ _ _ _ ih ih' => simpa [spelling, or_imp, forall_and] using ⟨ih, ih'⟩
  | super | this | named => simp [spelling]
  | @unary operator right mem _ _ _ ih =>
    have other : operator.type ≠ .forKw := by
      intro other
      rw [other] at mem
      exact absurd mem (by decide)
    simpa [spelling] using ⟨other, ih⟩

/-- An expression that may be missing is spelled without `for`. -/
theorem Expr.spellingAfter_ne_for {value : Option Expr} (shaped : ∀ e ∈ value, e.Shaped)
    {front : List Token} (before : ∀ t ∈ front, t.type ≠ .forKw) :
    ∀ t ∈ spellingAfter front value, t.type ≠ .forKw := by
  cases value with
  | none => exact List.forall_mem_nil _
  | some e =>
    rw [spellingAfter, List.forall_mem_append]
    exact ⟨before, (shaped e rfl).spelling_ne_for⟩

/-- Some statements are spelled without `for` if each of them is. -/
theorem Stmt.spellingAll_ne_for {ss : List Stmt}
    (h : ∀ s ∈ ss, ∀ t ∈ s.spelling, t.type ≠ .forKw) :
    ∀ t ∈ Stmt.spellingAll ss, t.type ≠ .forKw := by
  rw [spellingAll_eq]
  simp only [List.forall_mem_flatten, List.forall_mem_map]
  exact h

/-- A statement is spelled without `for`, as a loop of this kind is written as the `while` loop that
it stands for. -/
theorem Stmt.Shaped.spelling_ne_for {s : Stmt} (shaped : s.Shaped) :
    ∀ t ∈ s.spelling, t.type ≠ .forKw := by
  induction shaped with
  | block _ ih =>
    simpa [Stmt.spelling, or_imp, forall_and] using Stmt.spellingAll_ne_for ih
  | @function name params body _ _ _ ih =>
    have names : ∀ t ∈ Token.listed (params.map ([·.asName])), t.type ≠ .forKw := by
      refine Token.forall_mem_listed (by decide) ?_
      simp
    simpa [Stmt.spelling, Function.spelling, or_imp, forall_and] using
      ⟨names, Stmt.spellingAll_ne_for ih⟩
  | expression shaped | print shaped =>
    simpa [Stmt.spelling, or_imp, forall_and] using shaped.spelling_ne_for
  | @classDecl name superclass methods _ _ _ ih =>
    have parent : ∀ t ∈ Token.parentSpelling superclass, t.type ≠ .forKw := by
      cases superclass <;> simp [Token.parentSpelling]
    have inner : ∀ t ∈ Function.spellingAll methods, t.type ≠ .forKw := by
      rw [Function.spellingAll_eq]
      simp only [List.forall_mem_flatten, List.forall_mem_map]
      exact fun f mem => (List.forall_mem_cons.1 (ih f mem)).2
    simpa [Stmt.spelling, or_imp, forall_and] using ⟨parent, inner⟩
  | ifThen shaped _ _ ih | whileLoop shaped _ _ ih =>
    simpa [Stmt.spelling, or_imp, forall_and] using ⟨shaped.spelling_ne_for, ih⟩
  | ifElse shaped _ _ _ _ _ ih ih' =>
    simpa [Stmt.spelling, or_imp, forall_and] using ⟨shaped.spelling_ne_for, ih, ih'⟩
  | returns _ shaped =>
    have inner := Expr.spellingAfter_ne_for shaped (List.forall_mem_nil _)
    simpa [Stmt.spelling, or_imp, forall_and] using inner
  | varDecl _ shaped =>
    have equals : ∀ t ∈ [Token.sign .equal], t.type ≠ .forKw := by decide
    have inner := Expr.spellingAfter_ne_for shaped equals
    simpa [Stmt.spelling, or_imp, forall_and] using inner

end Lox
