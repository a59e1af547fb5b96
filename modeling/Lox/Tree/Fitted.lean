import Lox.Tree.Datum
import Lox.Tree.Layout

/-!
# Fitting loose trees

A datum is written as program text by fitting it first: `Datum.toExpr` and `Datum.toStmt` give the
tree of the language that it is, or the first thing that does not fit in the order in which the
parts are written.
-/

namespace Lox

namespace Datum

/-- Why a datum is not a tree of the language. -/
inductive Misfit
  /-- Something stands where a node has to stand. -/
  | notNode (d : Datum)
  /-- Something has not the part that is asked of it. -/
  | noPart
  /-- Of the items to be written with commas between them, the one with a number has no text. -/
  | noText (i : Nat)

mutual

/-- A datum as messages show it. Unlike in a dump, tuples are told from lists. -/
def shown : Datum → List Char
  | tuple [d] => '(' :: (shown d ++ [',', ')'])
  | tuple items => '(' :: (commas (shownAll items) ++ [')'])
  | list items => '[' :: (commas (shownAll items) ++ [']'])
  | none => "None".toList
  | bool b => ofBool b
  | number x => x.display
  | text s => Text.quotedChars s.toList
  | bare => "ASTNode()".toList
  | token t => ofToken false t
  | node kind _ => kind.title.toList

/-- Some data as messages show them. -/
def shownAll : List Datum → List (List Char)
  | [] => []
  | d :: ds => shown d :: shownAll ds

end

/-- What is said about a misfit; about a missing part nothing. -/
def Misfit.message : Misfit → Option String
  | notNode d => some ("Not an AST node: " ++ String.ofList d.shown)
  | noPart => Option.none
  | noText i =>
    some ("sequence item " ++ toString i ++ ": expected str instance, NoneType found")

/-- The literal that a datum is the value of. -/
def toLiteral : Datum → Except Misfit Literal
  | none => .ok .nil
  | bool b => .ok (.bool b)
  | number x => .ok (.number x)
  | text s => .ok (.text s)
  | _ => .error .noPart

/-- Items to be written with commas between them, if each has a text. What does not fit is found
before an item without a text, as all items are fitted first. -/
def listed {α : Type} (hasText : α → Bool) (items : List α) : Except Misfit (List α) :=
  match items.findIdx? fun item => !hasText item with
  | some i => .error (.noText i)
  | Option.none => .ok items

mutual

/-- The expression that a datum is. The arguments of a call come before what is called. -/
def toExpr : Datum → Except Misfit Expr
  | node .assign [token name, value] => return .assign name (← toExpr value)
  | node .binary [left, token operator, right] =>
    return .binary (← toExpr left) operator (← toExpr right)
  | node .call [callee, token paren, tuple arguments] => do
    let arguments ← listed (·.text?.isSome) (← toExprAll arguments)
    return .call (← toExpr callee) paren arguments
  | node .get [object, token name] => return .get (← toExpr object) name
  | node .grouping [inner] => return .grouping (← toExpr inner)
  | node .literal [value] => return .literal (← toLiteral value)
  | node .logical [left, token operator, right] =>
    return .logical (← toExpr left) operator (← toExpr right)
  | node .set [object, token name, value] => return .set (← toExpr object) name (← toExpr value)
  | node .super [token keyword, token method] => return .super keyword method
  | node .this [token keyword] => return .this keyword
  | node .unary [token operator, right] => return .unary operator (← toExpr right)
  | node .named [token name] => return .named name
  | node _ _ => .error .noPart
  | d => .error (.notNode d)

/-- The expressions that some data are. -/
def toExprAll : List Datum → Except Misfit (List Expr)
  | [] => return []
  | d :: ds => return (← toExpr d) :: (← toExprAll ds)

end

/-- The expression that a datum is, if it is not nothing. -/
def toExprOption : Datum → Except Misfit (Option Expr)
  | none => return Option.none
  | d => return some (← toExpr d)

/-- The name in a node that stands for a superclass. -/
def toSuperclass : Datum → Except Misfit (Option Token)
  | none => return Option.none
  | node kind fields =>
    match (kind.fields.zip fields).lookup "name" with
    | some (token name) => return some name
    | _ => throw .noPart
  | _ => throw .noPart

/-- The token that a datum is. -/
def toToken : Datum → Except Misfit Token
  | token t => .ok t
  | _ => .error .noPart

/-- The tokens that parameters are. -/
def toParams (params : List Datum) : Except Misfit (List Token) := do
  listed (·.lexeme.isSome) (← params.mapM toToken)

mutual

/-- The statement that a datum is. -/
def toStmt : Datum → Except Misfit Stmt
  | node .block [tuple statements] => return .block (← toStmtAll statements)
  | node .function [token name, tuple params, none] =>
    return .function (.declared name (← toParams params))
  | node .function [token name, tuple params, tuple body] =>
    return .function (.defined name (← toParams params) (← toStmtAll body))
  | node .expression [e] => return .expression (← toExpr e)
  | node .classDecl [token name, superclass, tuple methods] =>
    return .classDecl name (← toSuperclass superclass) (← toFunctionAll methods)
  | node .branch [condition, thenBranch, none] =>
    return .ifThen (← toExpr condition) (← toStmt thenBranch)
  | node .branch [condition, thenBranch, elseBranch] =>
    return .ifElse (← toExpr condition) (← toStmt thenBranch) (← toStmt elseBranch)
  | node .print [e] => return .print (← toExpr e)
  | node .returns [token keyword, value] => return .returns keyword (← toExprOption value)
  | node .varDecl [token name, initializer] => return .varDecl name (← toExprOption initializer)
  | node .whileLoop [condition, body] => return .whileLoop (← toExpr condition) (← toStmt body)
  | node _ _ => .error .noPart
  | d => .error (.notNode d)

/-- The function that a member of a class is. -/
def toFunction : Datum → Except Misfit Function
  | node .function [token name, tuple params, none] => return .declared name (← toParams params)
  | node .function [token name, tuple params, tuple body] =>
    return .defined name (← toParams params) (← toStmtAll body)
  | _ => .error .noPart

/-- The statements that some data are. -/
def toStmtAll : List Datum → Except Misfit (List Stmt)
  | [] => return []
  | d :: ds => return (← toStmt d) :: (← toStmtAll ds)

/-- The functions that the members of a class are. -/
def toFunctionAll : List Datum → Except Misfit (List Function)
  | [] => return []
  | d :: ds => return (← toFunction d) :: (← toFunctionAll ds)

end

/-- The written form of a node: an expression is one text, if it has one, and a statement is
lines. -/
inductive Written
  | text (chars : Option (List Char))
  | lines (lines : List Line)

/-- Writes a datum, which has to be a node. -/
def write (indent : String) : Datum → Except Misfit Written
  | node kind fields =>
    if kind.isExpression then return .text (← toExpr (node kind fields)).text?
    else return .lines ((← toStmt (node kind fields)).lines indent.toList)
  | d => throw (.notNode d)

/-- The written form as one text. -/
def Written.toText : Written → Option String
  | text chars => chars.map String.ofList
  | lines all => some (String.ofList (Layout.separated all))

/-- Writes a datum as one text. Only nodes of some kind can be written. -/
def print (indent : String) : Datum → Except Misfit (Option String)
  | node kind fields => return (← write indent (node kind fields)).toText
  | _ => throw .noPart

/-- Writes a statement as a program. -/
def printProgram (indent : String) (d : Datum) : Except Misfit String := do
  match ← write indent d with
  | .lines lines => return String.ofList (Layout.ended lines)
  | .text _ => throw .noPart

/-- The tag of a node. -/
def tag : Datum → Except Misfit String
  | node kind _ => return kind.tag
  | _ => throw .noPart

/-- The nodes directly below a node. -/
def subnodes : Datum → Except Misfit (List Datum)
  | node kind fields => return (node kind fields).children
  | bare => return []
  | _ => throw .noPart

/-- Writes a datum that has to know how to be visited, as nodes do. -/
def accept (indent : String) : Datum → Except Misfit Written
  | node kind fields => write indent (node kind fields)
  | bare => throw (.notNode bare)
  | _ => throw .noPart

end Datum

end Lox
