import Lox.Tree.Kind

/-!
# Visitors

A class of visitors handles kinds of node by methods, whose names are made of the tags of the kinds.
Classes form chains: each one adds a layer to the class that it extends, with handlers and with
marks that hide handlers. A class that is not abstract is refused unless the nearest attribute with
the name of every method is a handler. If it is accepted it gets a table with the names of all
methods. An abstract class is never refused and shares the table of the class that it extends.

A visit takes the name of the method from the table and then looks for the nearest attribute with
that name. So an abstract class can hide a handler although the name of its method stays in the
table.
-/

namespace Lox

/-- The name of the method that handles a kind. -/
def Kind.method (k : Kind) : String := "visit_" ++ k.tag

/-- What one class of visitors adds. -/
structure Layer where
  /-- The name of the class. -/
  name : String
  /-- The kinds that it handles. -/
  handlers : List Kind
  /-- The kinds whose handlers it hides, its own among them. -/
  hidden : List Kind
  /-- Whether it may leave kinds unhandled. -/
  abstract : Bool
  deriving DecidableEq

/-- What a class has under the name of a method. -/
inductive Attribute
  /-- The handler of a kind. -/
  | handler (k : Kind)
  /-- Nothing that could be called. -/
  | nothing
  deriving DecidableEq

/-- The attribute of a layer with a given name, if it has one. -/
def Layer.attribute? (l : Layer) (name : String) : Option Attribute :=
  if l.hidden.any (·.method == name) then some .nothing
  else (l.handlers.find? (·.method == name)).map .handler

/-- A class of visitors. -/
structure VisitorClass where
  /-- Its own layer, then those of the classes that it extends, nearest first. -/
  layers : List Layer
  /-- The kinds of node that it can be sent to visit, each with the name of a method. -/
  table : List (Kind × String)
  deriving DecidableEq

/-- Why a visit fails. -/
inductive VisitFailure
  /-- A type error: the table does not list the kind of the node. -/
  | unlisted
  /-- A type error: the attribute with the listed name cannot be called. -/
  | hidden
  /-- An attribute error: there is no attribute with the listed name. -/
  | undefined
  deriving DecidableEq

namespace VisitorClass

/-- The class that all others extend. It has no handlers and an empty table. -/
def root : VisitorClass := ⟨[], []⟩

/-- The nearest attribute with a given name, and how many classes up the chain it is. -/
def nearest? : List Layer → String → Option (Nat × Attribute)
  | [], _ => none
  | l :: ls, name =>
    match l.attribute? name with
    | some a => some (0, a)
    | none => (nearest? ls name).map fun (i, a) => (i + 1, a)

/-- Whether there is something to call under a name. -/
def calls (layers : List Layer) (name : String) : Bool :=
  match nearest? layers name with
  | some (_, .handler _) => true
  | _ => false

/-- The kinds with nothing to call under the names of their methods, in the order of kinds. -/
def missing (layers : List Layer) : List Kind := Kind.all.filter fun k => !calls layers k.method

/-- The table with the names of all methods. -/
def methods : List (Kind × String) := Kind.all.map fun k => (k, k.method)

/-- The class that extends another one by a layer, or the kinds because of which it is refused. -/
def extend (c : VisitorClass) (l : Layer) : Except (List Kind) VisitorClass :=
  if l.abstract then .ok ⟨l :: c.layers, c.table⟩
  else
    match missing (l :: c.layers) with
    | [] => .ok ⟨l :: c.layers, methods⟩
    | ks => .error ks

/-- Sends a node of some kind to a handler: how many classes up the chain the handler is, and the
kind that it handles. -/
def dispatch (c : VisitorClass) (k : Kind) : Except VisitFailure (Nat × Kind) :=
  match c.table.lookup k with
  | none => .error .unlisted
  | some name =>
    match nearest? c.layers name with
    | none => .error .undefined
    | some (_, .nothing) => .error .hidden
    | some (i, .handler k) => .ok (i, k)

/-- What a visit answers: the name of the class whose handler is called and the tag of the handler's
kind. Nothing comes of a visit that fails. -/
def visit (c : VisitorClass) (k : Kind) : Option String := do
  let (i, k) ← (c.dispatch k).toOption
  let l ← c.layers[i]?
  return l.name ++ "." ++ k.tag

/-- What is said about a class that is refused. -/
def refusal (name : String) (missing : List Kind) : String :=
  name ++ " does not handle every AST node type; missing: " ++
    String.intercalate ", " (missing.map Kind.method)

end VisitorClass

/-- What comes of defining a class. -/
inductive Defined
  | accepted (c : VisitorClass)
  /-- The class was refused, for a reason. -/
  | refused (message : String)
  /-- The class that it extends was not defined. -/
  | skipped

/-- A class to be defined: what it adds, and the number of the class that it extends among those
before it, or none for a class that extends no other. -/
structure ClassDefinition where
  layer : Layer
  base : Option Nat

namespace ClassDefinition

/-- Defines a class after others. -/
def define (earlier : List Defined) (d : ClassDefinition) : Defined :=
  match d.base.elim (some (.accepted .root)) (earlier[·]?) with
  | some (.accepted c) =>
    match c.extend d.layer with
    | .ok c' => .accepted c'
    | .error missing => .refused (VisitorClass.refusal d.layer.name missing)
  | _ => .skipped

/-- Defines classes in order. -/
def defineAll (ds : List ClassDefinition) : List Defined :=
  ds.foldl (fun earlier d => earlier ++ [d.define earlier]) []

end ClassDefinition

end Lox
