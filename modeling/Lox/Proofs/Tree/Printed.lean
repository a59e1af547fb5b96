import Lox.Proofs.Token.Valid
import Lox.Proofs.Tree.Reread

/-!
# Scanning printed trees

The text of some declarations gives the tokens that they are spelled with and nothing else, whatever
their shape is (`scan_render`): no two tokens run together, none is split, and a string or a comment
takes in nothing beside it. Only what the tokens themselves say has to be readable (`Stmt.Legible`).

The zero with a sign is a number that is not negative, but its sign is not written. So it is read
back as the zero without one, and `unsigned` makes the same change to trees.
-/

namespace Lox

/-- A double, with the zero that has a sign replaced by the one that has none. -/
def Binary64.unsigned (x : Binary64) : Binary64 := if x.magnitude = 0 then zero else x

/-- Neither zero shows its sign in program text. -/
theorem Binary64.numeral_unsigned (x : Binary64) : x.unsigned.numeral = x.numeral := by
  unfold unsigned
  split
  · rename_i none
    have number : x.isNaN = false := by rw [isNaN, none]; decide
    have finite : x.isInfinite = false := by rw [isInfinite, none]; decide
    rw [numeral, numeral, number, finite, if_pos none]
    decide
  · rfl

/-- A literal without the sign of a zero. -/
def Literal.unsigned : Literal → Literal
  | number x => number x.unsigned
  | value => value

/-- The text of a literal does not show the sign of a zero. -/
@[simp] theorem Literal.chars_unsigned (value : Literal) : value.unsigned.chars = value.chars := by
  cases value with
  | number x => exact x.numeral_unsigned
  | nil | bool b | text s => rfl

namespace Expr

mutual

/-- An expression without the signs of its zeros. -/
def unsigned : Expr → Expr
  | assign name value => .assign name value.unsigned
  | binary left operator right => .binary left.unsigned operator right.unsigned
  | call callee paren arguments => .call callee.unsigned paren (unsignedAll arguments)
  | get object name => .get object.unsigned name
  | grouping inner => .grouping inner.unsigned
  | literal value => .literal value.unsigned
  | logical left operator right => .logical left.unsigned operator right.unsigned
  | set object name value => .set object.unsigned name value.unsigned
  | super keyword method => .super keyword method
  | this keyword => .this keyword
  | unary operator right => .unary operator right.unsigned
  | named name => .named name

/-- Some expressions without the signs of their zeros. -/
def unsignedAll : List Expr → List Expr
  | [] => []
  | e :: es => e.unsigned :: unsignedAll es

end

mutual

/-- The text of an expression does not show the signs of its zeros. -/
@[simp] theorem chars_unsigned : (e : Expr) → e.unsigned.chars = e.chars
  | assign _ value | grouping value | unary _ value => by
    simp [unsigned, chars, chars_unsigned value]
  | binary left _ right | logical left _ right => by
    simp [unsigned, chars, chars_unsigned left, chars_unsigned right]
  | call callee _ arguments => by
    simp [unsigned, chars, chars_unsigned callee, charsOfAll_unsigned arguments]
  | get object _ => by simp [unsigned, chars, chars_unsigned object]
  | set object _ value => by simp [unsigned, chars, chars_unsigned object, chars_unsigned value]
  | literal _ | super _ _ | this _ | named _ => by simp [unsigned, chars]

/-- The texts of some expressions do not show the signs of their zeros. -/
@[simp] theorem charsOfAll_unsigned : (es : List Expr) →
    charsOfAll (unsignedAll es) = charsOfAll es
  | [] => rfl
  | e :: es => by simp [unsignedAll, charsOfAll, chars_unsigned e, charsOfAll_unsigned es]

end

end Expr

mutual

/-- A statement without the signs of its zeros. -/
def Stmt.unsigned : Stmt → Stmt
  | .block statements => .block (Stmt.unsignedAll statements)
  | .function f => .function f.unsigned
  | .expression e => .expression e.unsigned
  | .classDecl name superclass methods =>
    .classDecl name superclass (Function.unsignedAll methods)
  | .ifThen condition thenBranch => .ifThen condition.unsigned thenBranch.unsigned
  | .ifElse condition thenBranch elseBranch =>
    .ifElse condition.unsigned thenBranch.unsigned elseBranch.unsigned
  | .print e => .print e.unsigned
  | .returns keyword value => .returns keyword (value.map Expr.unsigned)
  | .varDecl name initializer => .varDecl name (initializer.map Expr.unsigned)
  | .whileLoop condition body => .whileLoop condition.unsigned body.unsigned

/-- A function without the signs of its zeros. -/
def Function.unsigned : Function → Function
  | .declared name params => .declared name params
  | .defined name params body => .defined name params (Stmt.unsignedAll body)

/-- Some statements without the signs of their zeros. -/
def Stmt.unsignedAll : List Stmt → List Stmt
  | [] => []
  | s :: rest => s.unsigned :: Stmt.unsignedAll rest

/-- Some functions without the signs of their zeros. -/
def Function.unsignedAll : List Function → List Function
  | [] => []
  | f :: rest => f.unsigned :: Function.unsignedAll rest

end

/-- Each of some statements loses the signs of its zeros. -/
theorem Stmt.unsignedAll_eq_map (ss : List Stmt) : Stmt.unsignedAll ss = ss.map Stmt.unsigned := by
  induction ss with
  | nil => rfl
  | cons s ss ih => rw [Stmt.unsignedAll, ih, List.map_cons]

/-- Whether a statement is a block does not show in the signs of its zeros. -/
@[simp] theorem Stmt.isBlock_unsigned (s : Stmt) : s.unsigned.isBlock = s.isBlock := by
  cases s <;> rfl

mutual

/-- The text of a statement does not show the signs of its zeros. -/
@[simp] theorem Stmt.lines_unsigned (indent : List Char) :
    (s : Stmt) → s.unsigned.lines indent = s.lines indent
  | .block statements => by
    simp [Stmt.unsigned, Stmt.lines, Stmt.linesOfAll_unsigned indent statements]
  | .function f => by simp [Stmt.unsigned, Stmt.lines, Function.lines_unsigned indent _ f]
  | .expression _ | .print _ => by simp [Stmt.unsigned, Stmt.lines]
  | .classDecl _ none methods | .classDecl _ (some _) methods => by
    simp [Stmt.unsigned, Stmt.lines, Function.linesOfAll_unsigned indent methods]
  | .ifThen _ thenBranch => by
    simp [Stmt.unsigned, Stmt.lines, Stmt.lines_unsigned indent thenBranch]
  | .ifElse _ thenBranch elseBranch => by
    simp [Stmt.unsigned, Stmt.lines, Stmt.lines_unsigned indent thenBranch,
      Stmt.lines_unsigned indent elseBranch]
  | .returns _ none | .returns _ (some _) | .varDecl _ none | .varDecl _ (some _) => by
    simp [Stmt.unsigned, Stmt.lines]
  | .whileLoop _ body => by simp [Stmt.unsigned, Stmt.lines, Stmt.lines_unsigned indent body]

/-- The text of a function does not show the signs of its zeros. -/
@[simp] theorem Function.lines_unsigned (indent keyword : List Char) :
    (f : Function) → f.unsigned.lines indent keyword = f.lines indent keyword
  | .declared _ _ => rfl
  | .defined _ _ body => by
    simp [Function.unsigned, Function.lines, Stmt.linesOfAll_unsigned indent body]

/-- The texts of some statements do not show the signs of their zeros. -/
@[simp] theorem Stmt.linesOfAll_unsigned (indent : List Char) : (ss : List Stmt) →
    Stmt.linesOfAll indent (Stmt.unsignedAll ss) = Stmt.linesOfAll indent ss
  | [] => rfl
  | s :: ss => by
    simp [Stmt.unsignedAll, Stmt.linesOfAll, Stmt.lines_unsigned indent s,
      Stmt.linesOfAll_unsigned indent ss]

/-- The texts of some functions do not show the signs of their zeros. -/
@[simp] theorem Function.linesOfAll_unsigned (indent : List Char) : (fs : List Function) →
    Function.linesOfAll indent (Function.unsignedAll fs) = Function.linesOfAll indent fs
  | [] => rfl
  | f :: fs => by
    simp [Function.unsignedAll, Function.linesOfAll, Function.lines_unsigned indent _ f,
      Function.linesOfAll_unsigned indent fs]

end

/-- The text of a program does not show the signs of its zeros. -/
theorem render_unsigned (indent : String) (ss : List Stmt) :
    render indent (ss.map Stmt.unsigned) = render indent ss := by
  rw [render, render, ← Stmt.unsignedAll_eq_map, Stmt.linesOfAll_unsigned]

open Lexeme

/-- Scanning the text of any declarations, indented by any blanks, succeeds. It gives the tokens
that the declarations are spelled with, in their order, and then the mark of the end. The names of
the declarations have to be words that are not reserved, their operators have to have the text of
their type, their strings must hold no quote, and their numbers must be numbers or infinity without
a minus sign. Their shape can be any. -/
theorem scan_render {indent : String} (blank : ∀ c ∈ indent.toList, isBlank c = true)
    {ss : List Stmt} (legible : ∀ s ∈ ss, s.unsigned.Legible) :
    ∃ ts, (scan (render indent ss)).toExcept = .ok (ts ++ [.eof]) ∧
      ts.map Token.erased = Stmt.spellingAll (ss.map Stmt.unsigned) := by
  have lexes := lexes_render blank (List.forall_mem_map.2 legible)
  rw [render_unsigned] at lexes
  obtain ⟨clear, spelled⟩ := lexes 1
  obtain ⟨ts, split, -⟩ := exists_tokens clear
  refine ⟨ts, ?_, ?_⟩
  · rw [Feed.toExcept, scan, clear, split]
  · rw [split, List.map_append] at spelled
    exact List.append_cancel_right spelled

/-- A statement that no text is read as: its `else` would be taken by the `if` inside it, an operand
is an assignment, and a branch is a function without a body. -/
def crookedBranch : Stmt :=
  let a := Token.plain .identifier "a"
  let zero := { Binary64.zero with negative := true }
  .ifElse (.unary (.sign .bang) (.literal (.text "// not a comment")))
    (.ifThen (.named a) (.expression (.binary (.literal (.number zero)) (.sign .minus)
      (.unary (.sign .minus) (.assign a (.literal .nil))))))
    (.function (.declared a [a]))

/-- The crooked statement is spelled as it is written, indented by a tab and a line end. -/
theorem scan_render_crookedBranch :
    (∀ c ∈ "\t\n".toList, isBlank c = true) ∧ (∀ s ∈ [crookedBranch], s.unsigned.Legible) ∧
      ∃ ts, (scan (render "\t\n" [crookedBranch])).toExcept = .ok (ts ++ [.eof]) ∧
        ts.map Token.erased = Stmt.spellingAll ([crookedBranch].map Stmt.unsigned) := by
  have blank : ∀ c ∈ "\t\n".toList, isBlank c = true := List.all_eq_true.1 (by decide)
  have word : (Token.plain .identifier "a").NamesWord := ⟨'a', [], rfl, rfl, by simp, by decide⟩
  have bang : (Token.sign .bang).Fixed := ⟨rfl, by decide⟩
  have minus : (Token.sign .minus).Fixed := ⟨rfl, by decide⟩
  have text : (Literal.text "// not a comment").Legible := by
    rw [Literal.Legible]
    decide
  have zero : Binary64.zero.Plain := ⟨rfl, by decide⟩
  have legible : crookedBranch.unsigned.Legible := by
    refine .ifElse (.unary (by decide) bang (.literal text)) (.ifThen (.named word) ?_)
      (.declared word (by simpa using word))
    exact .expression (.binary minus (.literal zero)
      (.unary (by decide) minus (.assign word (.literal trivial))))
  have all : ∀ s ∈ [crookedBranch], s.unsigned.Legible := List.forall_mem_singleton.2 legible
  exact ⟨blank, all, scan_render blank all⟩

end Lox
