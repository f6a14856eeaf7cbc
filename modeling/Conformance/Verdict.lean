import Conformance.Program.Lineage
import Conformance.TypeExpr.Printer

/-!
# Verdicts

The outcome of judging a value against a type.  A rejection says why, on which part of the value (a
path of selectors from the slot inwards), what was expected there and what was found.
-/

namespace Conformance

/-- A step from a value to a part of it. -/
inductive Selector where
  /-- An element by its position. -/
  | element (index : Nat)
  /-- A key of a mapping, as it is shown. -/
  | key (shown : String)
  /-- The value at a key of a mapping. -/
  | valueAt (shown : String)
  /-- The first bound of a range. -/
  | start
  /-- The second bound of a range. -/
  | stop
  deriving Inhabited

namespace Selector

/-- The step in words. -/
def label : Selector → String
  | element i => s!"element {i}"
  | key shown => "key " ++ shown
  | valueAt shown => "value at " ++ shown
  | start => "start"
  | stop => "stop"

end Selector

/-- A part of the value in a slot, innermost step first. -/
structure Path where
  slot : String
  steps : List Selector := []
  deriving Inhabited

namespace Path

/-- The path one step further in. -/
def into (p : Path) (s : Selector) : Path := { p with steps := s :: p.steps }

/-- The path in words, from the innermost part out to the slot. -/
def text (p : Path) : String := " of ".intercalate (p.steps.map (·.label) ++ [p.slot])

end Path

/-- Why a value is rejected. -/
inductive Reason where
  | noValueAllowed
  | notBoolean
  | notNil
  | notLiteral (l : Literal)
  | notOfReceiver (kind : Base) (receiver : String)
  | notModule (name : String)
  | notInstance (c : ClassId)
  | notSingleton (name : String)
  | lacksMethod (name : String)
  | inheritsMethod (name : String)
  | methodShape (name : String) (params : Params TypeExpr)
  | noAlternative (reasons : List Reason)
  | notTuple
  | wrongLength (expected actual : Nat)
  | notMapping
  | missingKey (k : Key)
  | unexpectedKey (shown : String)
  | boundElsewhere (name : String) (types : List ClassId) (origin : String)
  | notCallable
  | callShape (params : Params TypeExpr)
  deriving Inhabited

namespace Reason

mutual

def message : Reason → String
  | noValueAllowed => "no value satisfies bot"
  | notBoolean => "expected true or false"
  | notNil => "expected nil"
  | notLiteral l => "expected literal " ++ l.render
  | notOfReceiver kind receiver => s!"expected {kind.text} of {receiver}"
  | notModule name => "expected module " ++ name
  | notInstance c => "expected an instance of " ++ c.typeName
  | notSingleton name => "expected singleton(" ++ name ++ ")"
  | lacksMethod name => s!"does not respond to `{name}`"
  | inheritsMethod name => s!"does not define its own `{name}`"
  | methodShape name params => s!"`{name}` cannot be called as {params.text}"
  | noAlternative reasons => "no alternative matched (" ++ "; ".intercalate (messages reasons) ++ ")"
  | notTuple => "expected a tuple"
  | wrongLength expected actual => s!"expected {expected} elements, got {actual}"
  | notMapping => "expected a mapping"
  | missingKey k => "missing key " ++ k.render
  | unexpectedKey shown => "unexpected key " ++ shown
  | boundElsewhere name types origin =>
    s!"type variable {name} is bound to " ++ " | ".intercalate (types.map (·.typeName))
      ++ " by " ++ origin
  | notCallable => "expected a callable"
  | callShape params => "callable cannot be called as " ++ params.text

/-- Several reasons in words. -/
def messages : List Reason → List String
  | [] => []
  | r :: rs => r.message :: messages rs

end

end Reason

/-- A rejection: why, where, what was expected there, the class of what was found, and the type
variable whose binding was violated, if it was that. -/
structure Mismatch where
  reason : Reason
  path : Path
  expected : TypeExpr
  actual : ClassId
  conflict : Option String := none
  deriving Inhabited

/-- The outcome of judging a value against a type. -/
inductive Verdict where
  | yes
  /-- Satisfied, unless the type variable stands for something else. -/
  | maybe (name : String)
  | no (m : Mismatch)
  deriving Inhabited

namespace Verdict

/-- Is the value accepted? -/
def isOk : Verdict → Bool
  | no _ => false
  | _ => true

end Verdict

end Conformance
