/-!
# Diagnostics

A diagnostic says what is wrong with a signature text or with a call, where, and what was expected.
`Diagnostic.summary` is its one-line form.
-/

namespace Conformance

/-- A place in a text: offsets count characters from 0, line and column from 1. -/
structure Span where
  start : Nat
  stop : Nat
  line : Nat
  column : Nat
  deriving DecidableEq, Repr, Inhabited

namespace Span

/-- A place as `line:column`. -/
def text (s : Span) : String := s!"{s.line}:{s.column}"

end Span

/-- What went wrong. -/
inductive DiagnosticKind where
  | shapeMismatch
  | classifyFailure
  | bindingConflict
  | unexpectedError
  | missingExpectedError
  | missingBlock
  | unexpectedBlock
  | blockNotCalled
  | malformedText
  deriving DecidableEq, Repr, Inhabited

namespace DiagnosticKind

def name : DiagnosticKind → String
  | shapeMismatch => "ShapeMismatch"
  | classifyFailure => "ClassifyFailure"
  | bindingConflict => "BindingConflict"
  | unexpectedError => "UnexpectedError"
  | missingExpectedError => "MissingExpectedError"
  | missingBlock => "MissingBlock"
  | unexpectedBlock => "UnexpectedBlock"
  | blockNotCalled => "BlockNotCalled"
  | malformedText => "SyntaxError"

def all : List DiagnosticKind :=
  [shapeMismatch, classifyFailure, bindingConflict, unexpectedError, missingExpectedError,
    missingBlock, unexpectedBlock, blockNotCalled, malformedText]

def ofName? (s : String) : Option DiagnosticKind := all.find? (·.name == s)

end DiagnosticKind

/-- The error that a diagnostic reports on: its class, without the module, and its text. -/
structure Cause where
  className : String
  text : String
  deriving DecidableEq, Repr, Inhabited

/-- One report.  Every part but kind and message may be absent. -/
structure Diagnostic where
  kind : DiagnosticKind
  message : String
  signature : Option String := none
  slot : Option String := none
  expected : Option String := none
  actual : Option String := none
  hint : Option String := none
  cause : Option Cause := none
  span : Option Span := none
  deriving DecidableEq, Repr, Inhabited

namespace Diagnostic

/-- A part that is present and not empty. -/
def shown? (part : Option String) : Option String := part.filter (· != "")

/-- The one-line form: kind, message, then signature and place where there are any. -/
def summary (d : Diagnostic) : String :=
  let head := s!"[{d.kind.name}] {d.message}"
  let signature := (shown? d.signature).elim "" fun s => s!" in `{s}`"
  let place := d.span.elim "" fun s => s!" at {s.text}"
  head ++ signature ++ place

end Diagnostic

end Conformance
