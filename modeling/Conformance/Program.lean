import Conformance.Value.Equality
import Conformance.Value.Written

/-!
# Programs under test

The classes, modules and functions that a program declares.  Functions are scripts: short lists of
steps over expressions.  A function value refers to its script by number.
-/

namespace Conformance

/-- An expression: what a script computes with, and how the objects of a request are made.  Whatever
can change or be shared is made, or looked up, when the expression is evaluated. -/
inductive Expr where
  /-- A positional argument, not counting the receiver; a negative number counts from the last. -/
  | arg (i : Int)
  /-- A keyword argument. -/
  | keyword (name : String)
  /-- The receiver of the call. -/
  | receiver
  /-- All positional arguments as a tuple. -/
  | args
  /-- The latest result of a call step. -/
  | last
  /-- All results of call steps so far. -/
  | results
  /-- A value as text. -/
  | textOf (e : Expr)
  /-- A constant. -/
  | value (v : Value)
  /-- The shared object of a name. -/
  | shared (name : String)
  /-- The class of a name. -/
  | classNamed (name : String)
  /-- A collection. -/
  | sequence (kind : SequenceKind) (items : List Expr)
  /-- A mapping; of equal keys the last value counts. -/
  | mapping (kind : MappingKind) (entries : List (Expr × Expr))
  /-- A new one-shot iterator. -/
  | iterator (kind : IteratorKind) (items : List Expr)
  /-- A new stream of text. -/
  | stream (text : String)
  /-- A stand-in for a value. -/
  | standIn (kind : StandInKind) (e : Expr)
  /-- The mark of a block around something that can be called. -/
  | block (e : Expr)
  /-- An error with its arguments. -/
  | error (className : String) (args : List Expr)
  /-- A new instance of a class, with attributes of its own. -/
  | object (className : String) (args : List Expr) (attributes : List (String × Expr))
  deriving Inhabited

/-- A step of a script. -/
inductive Step where
  /-- Calls a function and keeps its result. -/
  | call (f : Expr) (args : List Expr) (keywords : List (String × Expr))
  /-- Calls a function and keeps its result, or nothing when it fails. -/
  | attempt (f : Expr) (args : List Expr)
  /-- Calls a function with each element of a collection and keeps the results. -/
  | each (f collection : Expr)
  /-- Ends the script with a result. -/
  | answer (e : Expr)
  /-- Ends the script with an error. -/
  | fail (className : String) (args : List Expr)
  deriving Inhabited

/-- How a method takes its receiver. -/
inductive MethodKind where
  | ofInstance
  | ofClass
  | static
  deriving DecidableEq, Repr, Inhabited

/-- Something that a class defines. -/
inductive Member where
  | value (v : Value)
  | method (kind : MethodKind) (formals : List Formal) (code : Nat)
  deriving Inhabited

/-- A declared class. -/
structure ClassDecl where
  id : ClassId
  bases : List ClassId := [NativeClass.root]
  members : List (String × Member) := []
  deriving Inhabited

/-- A declared module. -/
structure ModuleDecl where
  name : String
  members : List (String × Value) := []
  deriving Inhabited

/-- The functions of native modules. -/
def moduleFunctions : List (String × List String) :=
  [("operator", ["add", "neg", "floordiv"]),
    ("builtins", ["len", "abs", "callable", "repr", "isinstance", "sorted"])]

/-- The declarations of a program, the library that it has besides, and the limits that it runs under. -/
structure Program where
  classes : List ClassDecl := []
  modules : List ModuleDecl := []
  scripts : List (List Step) := []
  /-- What is known of the classes of the library. -/
  natives : List NativeClass := NativeClass.table
  /-- What is known of the functions of its modules. -/
  functions : List (String × List String) := moduleFunctions
  /-- How deeply comparisons and judgements may nest. -/
  depthLimit : Nat := 1000
  /-- How deeply calls may nest in a call. -/
  callDepth : Nat := 199
  /-- How far a feed without a known end is followed. -/
  feedLimit : Nat := 100000
  deriving Inhabited

namespace Program

def class? (p : Program) (c : ClassId) : Option ClassDecl := p.classes.find? (·.id == c)

def module? (p : Program) (name : String) : Option ModuleDecl := p.modules.find? (·.name == name)

/-- The script with a number; a missing one does nothing. -/
def script (p : Program) (code : Nat) : List Step := p.scripts.getD code []

def addScript (p : Program) (steps : List Step) : Nat × Program :=
  (p.scripts.length, { p with scripts := p.scripts ++ [steps] })

def addClass (p : Program) (id : ClassId) (bases : List ClassId) : Program :=
  { p with classes := p.classes ++ [⟨id, bases, []⟩] }

def define (p : Program) (id : ClassId) (members : List (String × Member)) : Program :=
  { p with classes := p.classes.map fun d => if d.id == id then { d with members } else d }

def addModule (p : Program) (name : String) (members : List (String × Value)) : Program :=
  { p with modules := p.modules ++ [⟨name, members⟩] }

/-- The class with a name: a declared one, or else a native one by its type name. -/
def classNamed (p : Program) (name : String) : ClassId :=
  if p.classes.any (·.id == .declared name) then .declared name
  else ((NativeClass.named? name p.natives).map (·.id)).getD (.builtin name)

end Program

end Conformance
