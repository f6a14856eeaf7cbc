import Conformance.TypeExpr

/-!
# Pairing arguments with parameters

Positional arguments go to the required parameters from the left, to the trailing ones from the right,
then to the optional ones, and what is left between them to the rest parameter.  Keywords go to the
parameter of their name, or to the keyword rest.
-/

namespace Conformance

/-- Why arguments do not fit a parameter list. -/
inductive ShapeError where
  | tooFew (least given : Nat)
  | tooMany (most given : Nat)
  | missingKeyword (name : String)
  | unknownKeyword (name : String)
  deriving DecidableEq, Repr, Inhabited

namespace ShapeError

def message : ShapeError → String
  | tooFew least given => s!"expected at least {least} positional arguments, got {given}"
  | tooMany most given => s!"expected at most {most} positional arguments, got {given}"
  | missingKeyword name => s!"missing required keyword `{name}`"
  | unknownKeyword name => s!"unknown keyword `{name}`"

end ShapeError

/-- An argument with its parameter, under the label it is reported by. -/
structure Slot (τ α : Type) where
  label : String
  value : α
  param : Param τ
  deriving Inhabited

namespace Params

variable {τ α : Type}

/-- Is the number of positional arguments one that the parameters can take? -/
def checkCount (p : Params τ) (count : Nat) : Except ShapeError Unit :=
  if count < p.minPositionals then .error (.tooFew p.minPositionals count) else
  match p.maxPositionals with
  | some most => if most < count then .error (.tooMany most count) else .ok ()
  | none => .ok ()

def checkKeywords (p : Params τ) (given : List String) : Except ShapeError Unit :=
  match p.requiredKeywords.find? fun kq => !given.contains kq.1 with
  | some kq => .error (.missingKeyword kq.1)
  | none => .ok ()

/-- The parameters that positional arguments go to, in order, when their number fits. -/
def positionals (p : Params τ) (count : Nat) : List (Param τ) :=
  let spare := count - p.minPositionals
  let optional := p.optional.take spare
  let rest := p.rest.elim [] (List.replicate (spare - optional.length))
  p.required ++ optional ++ rest ++ p.trailing

def keywordParam? (p : Params τ) (name : String) : Option (Param τ) := p.keyword? name <|> p.restKeywords

def keywordSlot (p : Params τ) (given : String × α) : Except ShapeError (Slot τ α) :=
  match p.keywordParam? given.1 with
  | some param => .ok ⟨s!"keyword `{given.1}`", given.2, param⟩
  | none => .error (.unknownKeyword given.1)

/-- Pairs every argument with its parameter.  Positional slots are labelled by number. -/
def pair (p : Params τ) (label : String) (args : List α) (keywords : List (String × α)) :
    Except ShapeError (List (Slot τ α)) := do
  p.checkCount args.length
  p.checkKeywords (keywords.map (·.1))
  let named ← keywords.mapM p.keywordSlot
  let positional := (args.zip (p.positionals args.length)).zipIdx.map fun ((v, q), i) =>
    Slot.mk s!"{label} {i}" v q
  return positional ++ named

end Params

end Conformance
