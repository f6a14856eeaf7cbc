import Conformance.Program.World
import Conformance.Token.Lexer

/-!
# Faults

What can keep a check from being made at all, as opposed to a check that fails.  Each cause has its
message in `Fault.message`.
-/

namespace Conformance

/-- What kind of thing a name was taken for. -/
inductive NameKind where
  | ofClass
  | ofInterface
  | ofConstant
  deriving DecidableEq, Repr, Inhabited

namespace NameKind

def text : NameKind → String
  | ofClass => "class"
  | ofInterface => "interface"
  | ofConstant => "constant"

end NameKind

/-- Whose attribute is missing. -/
inductive Owner where
  | instanceOf (className : String)
  | classNamed (className : String)
  | moduleNamed (name : String)
  deriving DecidableEq, Repr, Inhabited

namespace Owner

def text : Owner → String
  | instanceOf c => "'" ++ c ++ "' object"
  | classNamed c => "type object '" ++ c ++ "'"
  | moduleNamed m => "module '" ++ m ++ "'"

end Owner

/-- Why a check could not be made. -/
inductive Fault where
  /-- A text is not a signature or type. -/
  | malformed (text : String) (diagnostics : List Diagnostic)
  /-- A name means nothing. -/
  | unknownName (kind : NameKind) (name : String)
  /-- An integer is too long to be read. -/
  | tooManyDigits (e : TooManyDigits)
  /-- A name leads back to itself without end. -/
  | tooDeep
  /-- There is no alias of this name. -/
  | unknownAlias (name : String)
  /-- A type variable is widened before it is bound. -/
  | unboundVariable (name : String)
  /-- An interface may not be called so. -/
  | interfaceName (name : String)
  /-- The empty name cannot be looked for. -/
  | emptyName
  /-- A name that starts with a dot cannot be looked for. -/
  | relativeName (name : String)
  /-- Instances of something that is no class are asked for. -/
  | notAClass
  /-- There is no signature to check against. -/
  | noSignature
  /-- A call has more than one block. -/
  | manyBlocks
  /-- An invocation is performed again. -/
  | alreadyCalled (label : String)
  /-- The receiver has no such method. -/
  | noAttribute (owner : Owner) (name : String)
  /-- A sample of no elements is asked for. -/
  | emptySample
  /-- A sample of fewer than no elements is asked for, of a collection that cannot be indexed. -/
  | negativeSample
  /-- The number of first elements to look at is below zero or too large. -/
  | limitOutOfRange
  /-- An error that the program under test raised while it was inspected. -/
  | raised (r : Raised)
  deriving Inhabited

namespace Fault

/-- What is reported. -/
def message : Fault → String
  | malformed text diagnostics =>
    s!"Malformed signature `{text}`: " ++ "; ".intercalate (diagnostics.map (·.summary))
  | unknownName kind name => s!"Unknown {kind.text} `{name}`"
  | tooManyDigits e => e.message
  | tooDeep => ""
  | unknownAlias name => Text.quoted name
  | unboundVariable name => Text.quoted name
  | interfaceName name => s!"Interface names start with '_': {name}"
  | emptyName => "Empty module name"
  | relativeName name =>
    s!"the 'package' argument is required to perform a relative import for {Text.quoted name}"
  | notAClass => "isinstance() arg 2 must be a type, a tuple of types, or a union"
  | noSignature => "At least one signature is required"
  | manyBlocks => "At most one Block may be passed per call"
  | alreadyCalled label => s!"{label} has already been called"
  | noAttribute owner name => s!"{owner.text} has no attribute '{name}'"
  | emptySample => "division by zero"
  | negativeSample => "list index out of range"
  | limitOutOfRange => "Stop argument for islice() must be None or an integer: 0 <= x <= sys.maxsize."
  | raised r => r.toValue.text

end Fault

end Conformance
