import Conformance.Token

/-!
# Type expressions and signatures

The tree of a signature text.  Parameter lists, record fields, capabilities and blocks are generic in
the type they hold, so the operations on their shape are written once.
-/

namespace Conformance

/-- A key of a record type. -/
inductive Key where
  | int (n : Int)
  | str (s : String)
  | bool (b : Bool)
  deriving DecidableEq, Repr, Inhabited

namespace Key

/-- The number a key equals, if any: `true` is 1 and `false` is 0. -/
def number? : Key → Option Int
  | int n => some n
  | bool b => some b.toInt
  | str _ => none

/-- Equality of keys as values, which identifies `1` with `true` and `0` with `false`. -/
def same : Key → Key → Bool
  | str s, str t => s == t
  | j, k => j.number?.isSome && j.number? == k.number?

end Key

/-- A literal type: its only value, or a symbol. -/
inductive Literal where
  | int (n : Int)
  | str (s : String)
  | bool (b : Bool)
  | symbol (s : String)
  deriving DecidableEq, Repr, Inhabited

namespace Literal

/-- The value of a literal; a symbol stands for its text. -/
def value : Literal → Key
  | int n => .int n
  | str s => .str s
  | bool b => .bool b
  | symbol s => .str s

def isSymbol : Literal → Bool
  | symbol _ => true
  | _ => false

/-- Equality of literals: both or neither symbols, with equal values. -/
def same (a b : Literal) : Bool := a.isSymbol == b.isSymbol && a.value.same b.value

end Literal

/-- One parameter: its type and, for readers only, a name. -/
structure Param (τ : Type) where
  type : τ
  name : Option String := none
  deriving DecidableEq, Repr, Inhabited

/-- A parameter list by groups, in the order they are written. -/
structure Params (τ : Type) where
  required : List (Param τ) := []
  optional : List (Param τ) := []
  rest : Option (Param τ) := none
  trailing : List (Param τ) := []
  requiredKeywords : List (String × Param τ) := []
  optionalKeywords : List (String × Param τ) := []
  restKeywords : Option (Param τ) := none
  deriving DecidableEq, Repr, Inhabited

/-- One field of a record type. -/
structure Field (τ : Type) where
  key : Key
  type : τ
  required : Bool := true
  deriving DecidableEq, Repr, Inhabited

/-- One method that an interface asks for, with the arguments it must accept.  An `explicit`
capability is not met by the method that every object inherits. -/
structure Capability (τ : Type) where
  name : String
  params : Option (Params τ) := none
  explicit : Bool := false
  deriving DecidableEq, Repr, Inhabited

/-- The block of a call: its parameters, what it returns, and whether it must be given. -/
structure Block (τ : Type) where
  params : Params τ
  result : τ
  required : Bool := true
  deriving DecidableEq, Repr, Inhabited

/-- A type expression. -/
inductive TypeExpr where
  | untyped
  | base (b : Base)
  | classRef (name : String) (args : List TypeExpr)
  | singleton (name : String)
  | interface (name : String) (methods : List (Capability TypeExpr))
  | union (alternatives : List TypeExpr)
  | intersection (parts : List TypeExpr)
  | tuple (elements : List TypeExpr)
  | record (fields : List (Field TypeExpr)) (extra : Option TypeExpr)
  | literal (l : Literal)
  | typeVar (name : String)
  | optional (inner : TypeExpr)
  | proc (params : Params TypeExpr) (result : TypeExpr) (block : Option (Block TypeExpr))
  deriving Inhabited

/-- One overload of a method, with the text it was read from. -/
structure Signature where
  params : Params TypeExpr
  result : TypeExpr
  block : Option (Block TypeExpr) := none
  typeParams : List String := []
  text : String := ""
  deriving Inhabited

namespace Params

variable {τ : Type}

/-- The least number of positional arguments. -/
def minPositionals (p : Params τ) : Nat := p.required.length + p.trailing.length

/-- The greatest number of positional arguments; none when there is a rest parameter. -/
def maxPositionals (p : Params τ) : Option Nat :=
  if p.rest.isSome then none else some (p.minPositionals + p.optional.length)

def keywords (p : Params τ) : List (String × Param τ) := p.requiredKeywords ++ p.optionalKeywords

def keyword? (p : Params τ) (name : String) : Option (Param τ) :=
  (p.keywords.find? (·.1 == name)).map (·.2)

end Params

namespace Signature

/-- Does the signature declare that the call never returns? -/
def declaresError (s : Signature) : Bool :=
  match s.result with
  | .base .bot => true
  | _ => false

end Signature

end Conformance
