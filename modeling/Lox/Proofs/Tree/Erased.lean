import Lox.Tree.Datum
import Lox.Tree.Layout

/-!
# Trees without lines

Where the tokens of a tree stood in the text does not show in the program text or in the structural
dump of the tree. So trees that are equal without the lines of their tokens are written alike
(`render_congr`, `dump_congr`).
-/

namespace Lox

namespace Datum

/-- The dump of a node: its name, and its fields with theirs. -/
@[simp] theorem dump_node (lines : Bool) (kind : Kind) (fields : List Datum) :
    dump lines (.node kind fields) =
      kind.title.toList ++ '(' :: (commas (dumpFields lines kind.fields fields) ++ [')']) := rfl

/-- The dump of a tuple. -/
@[simp] theorem dump_tuple (lines : Bool) (items : List Datum) :
    dump lines (.tuple items) = '[' :: (commas (dumpAll lines items) ++ [']']) := rfl

/-- The dump of a token. -/
@[simp] theorem dump_token (lines : Bool) (t : Token) :
    dump lines (.token t) = ofToken lines t := rfl

end Datum

/-- A token without its line. -/
def Token.erased (t : Token) : Token := { t with line := none }

namespace Token

@[simp] theorem erased_type (t : Token) : t.erased.type = t.type := rfl

@[simp] theorem erased_lexeme (t : Token) : t.erased.lexeme = t.lexeme := rfl

@[simp] theorem erased_literal (t : Token) : t.erased.literal = t.literal := rfl

@[simp] theorem erased_spelling (t : Token) : t.erased.spelling = t.spelling := rfl

@[simp] theorem erased_chars (t : Token) : t.erased.chars = t.chars := rfl

/-- Removing the line twice is removing it once. -/
@[simp] theorem erased_erased (t : Token) : t.erased.erased = t.erased := rfl

/-- In a dump without lines a token shows no line. -/
@[simp] theorem ofToken_erased (t : Token) : Datum.ofToken false t.erased = Datum.ofToken false t :=
  rfl

end Token

namespace Expr

mutual

/-- An expression without the lines of its tokens. -/
def erased : Expr → Expr
  | assign name value => .assign name.erased value.erased
  | binary left operator right => .binary left.erased operator.erased right.erased
  | call callee paren arguments => .call callee.erased paren.erased (erasedAll arguments)
  | get object name => .get object.erased name.erased
  | grouping inner => .grouping inner.erased
  | literal value => .literal value
  | logical left operator right => .logical left.erased operator.erased right.erased
  | set object name value => .set object.erased name.erased value.erased
  | super keyword method => .super keyword.erased method.erased
  | this keyword => .this keyword.erased
  | unary operator right => .unary operator.erased right.erased
  | named name => .named name.erased

/-- Some expressions without the lines of their tokens. -/
def erasedAll : List Expr → List Expr
  | [] => []
  | e :: es => e.erased :: erasedAll es

end

/-- Each of some expressions loses the lines of its tokens. -/
theorem erasedAll_eq_map (es : List Expr) : erasedAll es = es.map erased := by
  induction es with
  | nil => rfl
  | cons e es ih => rw [erasedAll, ih, List.map_cons]

mutual

/-- The text of an expression does not show lines. -/
@[simp] theorem chars_erased : (e : Expr) → e.erased.chars = e.chars
  | assign _ value | grouping value | unary _ value => by simp [erased, chars, chars_erased value]
  | binary left _ right | logical left _ right => by
    simp [erased, chars, chars_erased left, chars_erased right]
  | call callee _ arguments => by
    simp [erased, chars, chars_erased callee, charsOfAll_erased arguments]
  | get object _ => by simp [erased, chars, chars_erased object]
  | set object _ value => by simp [erased, chars, chars_erased object, chars_erased value]
  | literal _ | super _ _ | this _ | named _ => by simp [erased, chars]

/-- The texts of some expressions do not show lines. -/
@[simp] theorem charsOfAll_erased : (es : List Expr) → charsOfAll (erasedAll es) = charsOfAll es
  | [] => rfl
  | e :: es => by simp [erasedAll, charsOfAll, chars_erased e, charsOfAll_erased es]

end

mutual

/-- The dump of an expression does not show lines. -/
@[simp] theorem dump_erased : (e : Expr) → e.erased.toDatum.dump false = e.toDatum.dump false
  | assign _ value | grouping value | unary _ value => by
    simp [erased, toDatum, Datum.dumpFields, Kind.fields, dump_erased value]
  | binary left _ right | logical left _ right => by
    simp [erased, toDatum, Datum.dumpFields, Kind.fields, dump_erased left,
      dump_erased right]
  | call callee _ arguments => by
    simp [erased, toDatum, Datum.dumpFields, Kind.fields, dump_erased callee,
      dumpAll_erased arguments]
  | get object _ => by
    simp [erased, toDatum, Datum.dumpFields, Kind.fields, dump_erased object]
  | set object _ value => by
    simp [erased, toDatum, Datum.dumpFields, Kind.fields, dump_erased object,
      dump_erased value]
  | literal _ | super _ _ | this _ | named _ => by
    simp [erased, toDatum, Datum.dumpFields, Kind.fields]

/-- The dumps of some expressions do not show lines. -/
@[simp] theorem dumpAll_erased : (es : List Expr) →
    Datum.dumpAll false (toDatumAll (erasedAll es)) = Datum.dumpAll false (toDatumAll es)
  | [] => rfl
  | e :: es => by
    simp [erasedAll, toDatumAll, Datum.dumpAll, dump_erased e, dumpAll_erased es]

end

end Expr

mutual

/-- A statement without the lines of its tokens. -/
def Stmt.erased : Stmt → Stmt
  | .block statements => .block (Stmt.erasedAll statements)
  | .function f => .function f.erased
  | .expression e => .expression e.erased
  | .classDecl name superclass methods =>
    .classDecl name.erased (superclass.map Token.erased) (Function.erasedAll methods)
  | .ifThen condition thenBranch => .ifThen condition.erased thenBranch.erased
  | .ifElse condition thenBranch elseBranch =>
    .ifElse condition.erased thenBranch.erased elseBranch.erased
  | .print e => .print e.erased
  | .returns keyword value => .returns keyword.erased (value.map Expr.erased)
  | .varDecl name initializer => .varDecl name.erased (initializer.map Expr.erased)
  | .whileLoop condition body => .whileLoop condition.erased body.erased

/-- A function without the lines of its tokens. -/
def Function.erased : Function → Function
  | .declared name params => .declared name.erased (params.map Token.erased)
  | .defined name params body =>
    .defined name.erased (params.map Token.erased) (Stmt.erasedAll body)

/-- Some statements without the lines of their tokens. -/
def Stmt.erasedAll : List Stmt → List Stmt
  | [] => []
  | s :: rest => s.erased :: Stmt.erasedAll rest

/-- Some functions without the lines of their tokens. -/
def Function.erasedAll : List Function → List Function
  | [] => []
  | f :: rest => f.erased :: Function.erasedAll rest

end

/-- Each of some statements loses the lines of its tokens. -/
theorem Stmt.erasedAll_eq_map (ss : List Stmt) : Stmt.erasedAll ss = ss.map Stmt.erased := by
  induction ss with
  | nil => rfl
  | cons s ss ih => rw [Stmt.erasedAll, ih, List.map_cons]

/-- Each of some functions loses the lines of its tokens. -/
theorem Function.erasedAll_eq_map (fs : List Function) :
    Function.erasedAll fs = fs.map Function.erased := by
  induction fs with
  | nil => rfl
  | cons f fs ih => rw [Function.erasedAll, ih, List.map_cons]

/-- Whether a statement is a block does not show in lines. -/
@[simp] theorem Stmt.isBlock_erased (s : Stmt) : s.erased.isBlock = s.isBlock := by
  cases s <;> rfl

/-- The header of a function does not show lines. -/
@[simp] theorem Function.header_erased (keyword : List Char) (name : Token) (params : List Token) :
    Function.header keyword name.erased (params.map Token.erased) =
      Function.header keyword name params := by
  simp [Function.header, Function.comp_def]

mutual

/-- The text of a statement does not show lines. -/
@[simp] theorem Stmt.lines_erased (indent : List Char) :
    (s : Stmt) → s.erased.lines indent = s.lines indent
  | .block statements => by simp [Stmt.erased, Stmt.lines, Stmt.linesOfAll_erased indent statements]
  | .function f => by simp [Stmt.erased, Stmt.lines, Function.lines_erased indent _ f]
  | .expression _ | .print _ => by simp [Stmt.erased, Stmt.lines]
  | .classDecl _ none methods | .classDecl _ (some _) methods => by
    simp [Stmt.erased, Stmt.lines, Function.linesOfAll_erased indent methods]
  | .ifThen _ thenBranch => by
    simp [Stmt.erased, Stmt.lines, Stmt.lines_erased indent thenBranch]
  | .ifElse _ thenBranch elseBranch => by
    simp [Stmt.erased, Stmt.lines, Stmt.lines_erased indent thenBranch,
      Stmt.lines_erased indent elseBranch]
  | .returns _ none | .returns _ (some _) | .varDecl _ none | .varDecl _ (some _) => by
    simp [Stmt.erased, Stmt.lines]
  | .whileLoop _ body => by simp [Stmt.erased, Stmt.lines, Stmt.lines_erased indent body]

/-- The text of a function does not show lines. -/
@[simp] theorem Function.lines_erased (indent keyword : List Char) :
    (f : Function) → f.erased.lines indent keyword = f.lines indent keyword
  | .declared name params => by simp [Function.erased, Function.lines]
  | .defined name params body => by
    simp [Function.erased, Function.lines, Stmt.linesOfAll_erased indent body]

/-- The texts of some statements do not show lines. -/
@[simp] theorem Stmt.linesOfAll_erased (indent : List Char) : (ss : List Stmt) →
    Stmt.linesOfAll indent (Stmt.erasedAll ss) = Stmt.linesOfAll indent ss
  | [] => rfl
  | s :: ss => by
    simp [Stmt.erasedAll, Stmt.linesOfAll, Stmt.lines_erased indent s,
      Stmt.linesOfAll_erased indent ss]

/-- The texts of some functions do not show lines. -/
@[simp] theorem Function.linesOfAll_erased (indent : List Char) : (fs : List Function) →
    Function.linesOfAll indent (Function.erasedAll fs) = Function.linesOfAll indent fs
  | [] => rfl
  | f :: fs => by
    simp [Function.erasedAll, Function.linesOfAll, Function.lines_erased indent _ f,
      Function.linesOfAll_erased indent fs]

end

/-- The dump of an expression that may be missing does not show lines. -/
@[simp] theorem Expr.dump_erasedOption (value : Option Expr) :
    (Expr.toDatumOption (value.map Expr.erased)).dump false =
      (Expr.toDatumOption value).dump false := by
  cases value <;> simp [Expr.toDatumOption]

/-- The dump of parameters does not show lines. -/
@[simp] theorem dumpAll_params (params : List Token) :
    Datum.dumpAll false (params.map (Datum.token ∘ Token.erased)) =
      Datum.dumpAll false (params.map .token) := by
  induction params with
  | nil => rfl
  | cons t params ih => simp [Datum.dumpAll, ih]

mutual

/-- The dump of a statement does not show lines. -/
@[simp] theorem Stmt.dump_erased :
    (s : Stmt) → s.erased.toDatum.dump false = s.toDatum.dump false
  | .block statements => by
    simp [Stmt.erased, Stmt.toDatum, Datum.dumpFields, Kind.fields,
      Stmt.dumpAll_erased statements]
  | .function f => by simp [Stmt.erased, Stmt.toDatum, Function.dump_erased f]
  | .expression _ | .print _ | .returns _ _ | .varDecl _ _ => by
    simp [Stmt.erased, Stmt.toDatum, Datum.dumpFields, Kind.fields]
  | .classDecl _ none methods | .classDecl _ (some _) methods => by
    simp [Stmt.erased, Stmt.toDatum, Stmt.superclassToDatum, Datum.dumpFields, Kind.fields,
      Function.dumpAll_erased methods]
  | .ifThen _ thenBranch => by
    simp [Stmt.erased, Stmt.toDatum, Datum.dumpFields, Kind.fields,
      Stmt.dump_erased thenBranch]
  | .ifElse _ thenBranch elseBranch => by
    simp [Stmt.erased, Stmt.toDatum, Datum.dumpFields, Kind.fields,
      Stmt.dump_erased thenBranch, Stmt.dump_erased elseBranch]
  | .whileLoop _ body => by
    simp [Stmt.erased, Stmt.toDatum, Datum.dumpFields, Kind.fields,
      Stmt.dump_erased body]

/-- The dump of a function does not show lines. -/
@[simp] theorem Function.dump_erased :
    (f : Function) → f.erased.toDatum.dump false = f.toDatum.dump false
  | .declared _ _ => by
    simp [Function.erased, Function.toDatum, Datum.dumpFields, Kind.fields]
  | .defined _ _ body => by
    simp [Function.erased, Function.toDatum, Datum.dumpFields, Kind.fields,
      Stmt.dumpAll_erased body]

/-- The dumps of some statements do not show lines. -/
@[simp] theorem Stmt.dumpAll_erased : (ss : List Stmt) →
    Datum.dumpAll false (Stmt.toDatumAll (Stmt.erasedAll ss)) =
      Datum.dumpAll false (Stmt.toDatumAll ss)
  | [] => rfl
  | s :: ss => by
    simp [Stmt.erasedAll, Stmt.toDatumAll, Datum.dumpAll, Stmt.dump_erased s,
      Stmt.dumpAll_erased ss]

/-- The dumps of some functions do not show lines. -/
@[simp] theorem Function.dumpAll_erased : (fs : List Function) →
    Datum.dumpAll false (Function.toDatumAll (Function.erasedAll fs)) =
      Datum.dumpAll false (Function.toDatumAll fs)
  | [] => rfl
  | f :: fs => by
    simp [Function.erasedAll, Function.toDatumAll, Datum.dumpAll, Function.dump_erased f,
      Function.dumpAll_erased fs]

end

/-- Programs that are equal without lines have the same text. -/
theorem render_congr {a b : List Stmt} (h : a.map Stmt.erased = b.map Stmt.erased)
    (indent : String) : render indent a = render indent b := by
  rw [← Stmt.erasedAll_eq_map, ← Stmt.erasedAll_eq_map] at h
  unfold render
  rw [← Stmt.linesOfAll_erased _ a, h, Stmt.linesOfAll_erased]

/-- Programs that are equal without lines have the same dump. -/
theorem dump_congr {a b : List Stmt} (h : a.map Stmt.erased = b.map Stmt.erased) :
    dump false a = dump false b := by
  rw [← Stmt.erasedAll_eq_map, ← Stmt.erasedAll_eq_map] at h
  unfold dump
  change String.ofList ('[' :: (Datum.commas (Datum.dumpAll false (Stmt.toDatumAll a)) ++ [']'])) =
    String.ofList ('[' :: (Datum.commas (Datum.dumpAll false (Stmt.toDatumAll b)) ++ [']']))
  rw [← Stmt.dumpAll_erased a, h, Stmt.dumpAll_erased]

end Lox
