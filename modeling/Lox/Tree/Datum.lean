import Lox.Tree.Basic
import Lox.Tree.Kind

/-!
# Loose trees

A datum is a tree whose parts need not fit together: a node has a kind and as many fields as the
kind has names, but any datum may stand in a field. Structural dumps, the children of a node and the
equality of trees are defined on data; `Expr.toDatum` and `Stmt.toDatum` say which data the trees of
the language are.
-/

namespace Lox

/-- A tree, or anything that may stand in one. -/
inductive Datum
  | none
  | bool (b : Bool)
  | number (x : Binary64)
  | text (s : String)
  | token (t : Token)
  | tuple (items : List Datum)
  /-- A list that can change, unlike a tuple. -/
  | list (items : List Datum)
  /-- A node of no kind, without fields. -/
  | bare
  | node (kind : Kind) (fields : List Datum)

namespace Datum

/-- Items with commas between them. -/
def commas : List (List Char) → List Char
  | [] => []
  | [item] => item
  | item :: items => item ++ [',', ' '] ++ commas items

/-- A truth value in a dump. -/
def ofBool (b : Bool) : List Char := if b then "True".toList else "False".toList

/-- A token in a dump: its text, and its line where it has one and lines are asked for. -/
def ofToken (lines : Bool) (t : Token) : List Char :=
  let text := (Text.quotedOption t.lexeme).toList
  match lines, t.line with
  | true, some n => text ++ '@' :: (toString n).toList
  | _, _ => text

mutual

/-- A datum as a structural dump, with the lines of tokens if they are asked for. -/
def dump (lines : Bool) : Datum → List Char
  | none => "None".toList
  | bool b => ofBool b
  | number x => x.display
  | text s => Text.quotedChars s.toList
  | token t => ofToken lines t
  | tuple items | list items => '[' :: (commas (dumpAll lines items) ++ [']'])
  | bare => "ASTNode()".toList
  | node kind fields =>
    kind.title.toList ++ '(' :: (commas (dumpFields lines kind.fields fields) ++ [')'])

/-- The dumps of some items. -/
def dumpAll (lines : Bool) : List Datum → List (List Char)
  | [] => []
  | d :: ds => dump lines d :: dumpAll lines ds

/-- The dumps of the fields of a node, each after its name. -/
def dumpFields (lines : Bool) : List String → List Datum → List (List Char)
  | name :: names, d :: ds => (name.toList ++ '=' :: dump lines d) :: dumpFields lines names ds
  | _, _ => []

end

/-- Whether a datum is a node. -/
def isNode : Datum → Bool
  | bare | node _ _ => true
  | _ => false

/-- The nodes that a field holds: itself, or the nodes in a tuple. -/
def nodesIn : Datum → List Datum
  | tuple items => items.filter isNode
  | d => if d.isNode then [d] else []

/-- The nodes directly below a datum, in order. -/
def children : Datum → List Datum
  | node _ fields => fields.flatMap nodesIn
  | _ => []

/-- Whether the values of two literals have the same type. -/
def sameType : Datum → Datum → Bool
  | none, none | bool _, bool _ | number _, number _ | text _, text _ => true
  | _, _ => false

/-- A truth value as a number. -/
def one (b : Bool) : Binary64 := if b then ⟨false, 1023 * Nat.pow 2 52, by decide⟩ else .zero

/-- Equality of the values of two tokens. -/
def equalValue : Option Binary64 → Option Binary64 → Bool
  | some x, some y => x.equal y
  | .none, .none => true
  | _, _ => false

/-- Equality of tokens. -/
def equalToken (t u : Token) : Bool :=
  t.type == u.type && t.lexeme == u.lexeme && t.line == u.line && equalValue t.literal u.literal

mutual

/-- Equality of data. Numbers are compared by value, and truth values count as numbers; only a
literal tells a number from a truth value. -/
def equal : Datum → Datum → Bool
  | none, none => true
  | bool a, bool b => a == b
  | bool a, number y => (one a).equal y
  | number x, bool b => x.equal (one b)
  | number x, number y => x.equal y
  | text s, text u => s == u
  | token t, token u => equalToken t u
  | tuple as, tuple bs => equalAll as bs
  | list as, list bs => equalAll as bs
  | bare, bare => true
  | node k as, node l bs =>
    k == l && (k != .literal || (as.zip bs).all fun (a, b) => a.sameType b) && equalAll as bs
  | _, _ => false

/-- Equality of lists of data, item by item. -/
def equalAll : List Datum → List Datum → Bool
  | [], [] => true
  | a :: as, b :: bs => equal a b && equalAll as bs
  | _, _ => false

end

mutual

/-- Whether a datum holds a list, which cannot be a member of a set. -/
def hasList : Datum → Bool
  | list _ => true
  | tuple items => anyHasList items
  | node _ fields => anyHasList fields
  | _ => false

/-- Whether one of some data holds a list. -/
def anyHasList : List Datum → Bool
  | [] => false
  | d :: ds => hasList d || anyHasList ds

end

/-- Why data cannot be members of a set. -/
def listInSet : String := "unhashable type: 'list'"

/-- The number of members of the set of two data, if both can be members. -/
def distinct (a b : Datum) : Except String Nat :=
  if a.hasList || b.hasList then .error listInSet else .ok (if a.equal b then 1 else 2)

end Datum

/-- The value of a literal as a datum. -/
def Literal.toDatum : Literal → Datum
  | nil => .none
  | bool b => .bool b
  | number x => .number x
  | text s => .text s

namespace Expr

mutual

/-- An expression as a datum. -/
def toDatum : Expr → Datum
  | assign name value => .node .assign [.token name, value.toDatum]
  | binary left operator right => .node .binary [left.toDatum, .token operator, right.toDatum]
  | call callee paren arguments =>
    .node .call [callee.toDatum, .token paren, .tuple (toDatumAll arguments)]
  | get object name => .node .get [object.toDatum, .token name]
  | grouping inner => .node .grouping [inner.toDatum]
  | literal value => .node .literal [value.toDatum]
  | logical left operator right => .node .logical [left.toDatum, .token operator, right.toDatum]
  | set object name value => .node .set [object.toDatum, .token name, value.toDatum]
  | super keyword method => .node .super [.token keyword, .token method]
  | this keyword => .node .this [.token keyword]
  | unary operator right => .node .unary [.token operator, right.toDatum]
  | named name => .node .named [.token name]

/-- Some expressions as data. -/
def toDatumAll : List Expr → List Datum
  | [] => []
  | e :: es => e.toDatum :: toDatumAll es

end

/-- An expression that may be missing, as a datum. -/
def toDatumOption : Option Expr → Datum
  | some e => e.toDatum
  | none => .none

end Expr

/-- The name of a superclass as a datum. -/
def Stmt.superclassToDatum : Option Token → Datum
  | some name => .node .named [.token name]
  | none => .none

mutual

/-- A statement as a datum. -/
def Stmt.toDatum : Stmt → Datum
  | .block statements => .node .block [.tuple (Stmt.toDatumAll statements)]
  | .function f => f.toDatum
  | .expression e => .node .expression [e.toDatum]
  | .classDecl name superclass methods =>
    .node .classDecl
      [.token name, Stmt.superclassToDatum superclass, .tuple (Function.toDatumAll methods)]
  | .ifThen condition thenBranch =>
    .node .branch [condition.toDatum, thenBranch.toDatum, .none]
  | .ifElse condition thenBranch elseBranch =>
    .node .branch [condition.toDatum, thenBranch.toDatum, elseBranch.toDatum]
  | .print e => .node .print [e.toDatum]
  | .returns keyword value => .node .returns [.token keyword, Expr.toDatumOption value]
  | .varDecl name initializer => .node .varDecl [.token name, Expr.toDatumOption initializer]
  | .whileLoop condition body => .node .whileLoop [condition.toDatum, body.toDatum]

/-- A function as a datum. -/
def Function.toDatum : Function → Datum
  | .declared name params =>
    .node .function [.token name, .tuple (params.map .token), .none]
  | .defined name params body =>
    .node .function [.token name, .tuple (params.map .token), .tuple (Stmt.toDatumAll body)]

/-- Some statements as data. -/
def Stmt.toDatumAll : List Stmt → List Datum
  | [] => []
  | s :: rest => s.toDatum :: Stmt.toDatumAll rest

/-- Some functions as data. -/
def Function.toDatumAll : List Function → List Datum
  | [] => []
  | f :: rest => f.toDatum :: Function.toDatumAll rest

end

/-- A program as a structural dump. -/
def dump (lines : Bool) (statements : List Stmt) : String :=
  String.ofList (Datum.dump lines (.list (Stmt.toDatumAll statements)))

/-- Equality of programs. -/
def equalPrograms (a b : List Stmt) : Bool :=
  Datum.equalAll (Stmt.toDatumAll a) (Stmt.toDatumAll b)

end Lox
