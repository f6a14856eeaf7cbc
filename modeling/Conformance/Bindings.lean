import Conformance.Value

/-!
# Bindings of type variables

During one check of one signature every type variable is bound by the slot that meets it first: to the
classes of the values seen there.  `origin` names that slot.  Entries stand in the order of first
binding.
-/

namespace Conformance

/-- The classes that a type variable stands for, and the slot that bound it. -/
structure Binding where
  types : List ClassId
  origin : String
  deriving DecidableEq, Repr, Inhabited

/-- The type variables bound so far. -/
structure Bindings where
  entries : List (String × Binding) := []
  deriving DecidableEq, Repr, Inhabited

namespace Bindings

/-- No type variable is bound. -/
def empty : Bindings := {}

def get? (b : Bindings) (name : String) : Option Binding := b.entries.lookup name

/-- Is the variable bound? -/
def contains (b : Bindings) (name : String) : Bool := (b.get? name).isSome

/-- Replaces the binding of a variable in its place, or adds it at the end. -/
def set (b : Bindings) (name : String) (binding : Binding) : Bindings :=
  if b.contains name then
    ⟨b.entries.map fun e => if e.1 == name then (name, binding) else e⟩
  else ⟨b.entries ++ [(name, binding)]⟩

def bind (b : Bindings) (name : String) (c : ClassId) (origin : String) : Bindings :=
  b.set name ⟨[c], origin⟩

/-- Adds a class to those of a bound variable; there is no result when it is not bound. -/
def widen? (b : Bindings) (name : String) (c : ClassId) : Option Bindings :=
  (b.get? name).map fun binding =>
    if binding.types.contains c then b else b.set name ⟨binding.types ++ [c], binding.origin⟩

/-- The number of bound variables. -/
def size (b : Bindings) : Nat := b.entries.length

/-- The variables with their classes, as shown. -/
def written (b : Bindings) : String :=
  let bound := b.entries.map fun e => e.1 ++ "=" ++ "|".intercalate (e.2.types.map (·.typeName))
  "Bindings(" ++ ", ".intercalate bound ++ ")"

end Bindings

end Conformance
