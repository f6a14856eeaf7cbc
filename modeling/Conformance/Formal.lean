/-!
# Formal parameters of callables

The signature that a callable reports, and whether a call with a number of positional arguments and a
set of keywords would fit it.
-/

namespace Conformance

/-- How a formal parameter takes its argument. -/
inductive FormalKind where
  | positionalOnly
  | positionalOrKeyword
  | variadic
  | keywordOnly
  | keywordVariadic
  deriving DecidableEq, Repr, Inhabited

/-- A formal parameter. -/
structure Formal where
  kind : FormalKind
  name : String
  hasDefault : Bool := false
  deriving DecidableEq, Repr, Inhabited

namespace Formal

/-- Takes every argument. -/
def anything : List Formal := [⟨.variadic, "args", false⟩, ⟨.keywordVariadic, "kwargs", false⟩]

/-- Fills formals from the left with a number of positional arguments: the formals filled by one
argument each, and those still to be filled.  There is no result when arguments are left over. -/
def fill : List Formal → Nat → Option (List Formal × List Formal)
  | fs, 0 => some ([], fs)
  | [], _ + 1 => none
  | f :: fs, n + 1 =>
    match f.kind with
    | .variadic => some ([], fs)
    | .keywordOnly | .keywordVariadic => none
    | .positionalOnly | .positionalOrKeyword => (fill fs n).map fun r => (f :: r.1, r.2)

/-- Is a formal that no positional argument filled satisfied by the keywords or its default? -/
def settled (keywords : List String) (f : Formal) : Bool :=
  match f.kind with
  | .variadic | .keywordVariadic => true
  | .positionalOnly => !keywords.contains f.name && f.hasDefault
  | .positionalOrKeyword | .keywordOnly => keywords.contains f.name || f.hasDefault

/-- Can a call with this many positional arguments and these keywords be bound to the formals? -/
def accepts (formals : List Formal) (positionals : Nat) (keywords : List String) : Bool :=
  match fill formals positionals with
  | none => false
  | some (filled, unfilled) =>
    let doubled := filled.any fun f => f.kind == .positionalOrKeyword && keywords.contains f.name
    let taken (k : String) := unfilled.any fun f =>
      f.name == k && (f.kind == .positionalOrKeyword || f.kind == .keywordOnly)
    let collects := unfilled.any (·.kind == .keywordVariadic)
    !doubled && unfilled.all (settled keywords) && (collects || keywords.all taken)

/-- The formals of a method once its receiver is bound: the first positional one is dropped, a
leading `*` stays, and there is no signature when nothing can take the receiver. -/
def bound? : List Formal → Option (List Formal)
  | [] => none
  | f :: fs =>
    match f.kind with
    | .positionalOnly | .positionalOrKeyword => some fs
    | .variadic => some (f :: fs)
    | .keywordOnly | .keywordVariadic => none

end Formal

end Conformance
