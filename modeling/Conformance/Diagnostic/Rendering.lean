import Conformance.Diagnostic
import Conformance.Layout.Markup
import Conformance.Layout.Wrap

/-!
# Rendering diagnostics

Diagnostics as plain text with all their parts, and as they are echoed on a console.
-/

namespace Conformance

namespace Diagnostic

def renderWidth : Nat := 120

/-- The lines of a diagnostic before they are laid out. -/
def parts (d : Diagnostic) : List String :=
  let shown (label : String) (part : Option String) :=
    ((shown? part).map fun s => s!"  {label}: {s}").toList
  let types := if (shown? d.expected).isSome || (shown? d.actual).isSome then
    ["  expected: " ++ d.expected.getD "None" ++ ", actual: " ++ d.actual.getD "None"] else []
  d.summary :: shown "slot" d.slot ++ types ++ shown "hint" d.hint
    ++ (d.cause.map fun c => s!"  cause: {c.className}: {c.text}").toList

/-- Diagnostics as plain text, without blanks at its end. -/
def renderAll (ds : List Diagnostic) : String :=
  Text.trimEnd (String.join ((ds.flatMap parts).map fun s =>
    Layout.print renderWidth (Layout.withPictures s)))

def echo (columns : Nat) (d : Diagnostic) : String :=
  let line (label : String) (part : Option String) :=
    ((shown? part).map fun s => "  " ++ label ++ " " ++ Layout.escape s).toList
  let marked := ("[red bold]" ++ d.kind.name ++ ":[/] " ++ Layout.escape d.message)
    :: line "[dim]signature:[/dim]" d.signature ++ line "[blue]Hint:[/blue]" d.hint
  String.join (marked.map fun s => Layout.print columns (Layout.shown s))

def echoAll (columns : Nat) (ds : List Diagnostic) : String := String.join (ds.map (echo columns))

end Diagnostic

end Conformance
