import Conformance.Command.Arguments
import Conformance.Layout.Grid
import Conformance.Ledger.Report
import Conformance.Session
import Conformance.Value.Normal

/-!
# The command line

Three commands: `parse` shows the normal form of a signature, `const` checks a constant against a type,
and `coverage` shows a report.  A command is a pure function of its words, the environment and the
files it may read; it prints a text and ends with a code.
-/

namespace Conformance

namespace Command

/-- An error that ends the program. -/
inductive Crash where
  | setting (e : SettingError)
  | report (e : ReportError)
  | ledger (e : LedgerError)
  /-- A field of this kind cannot stand in a table, because it is no text. -/
  | unshowable (kind : String)
  /-- A field of this kind cannot be taken for plain text. -/
  | notPlain (kind : String)
  | markup (e : Layout.UnopenedTag)
  | fault (e : Fault)
  deriving Inhabited

namespace Crash

/-- The error in words. -/
def message : Crash → String
  | setting e => e.message
  | report e => e.message
  | ledger e => e.message
  | unshowable kind => s!"unable to render {kind}; a string or other renderable object is required"
  | notPlain kind => s!"'{kind}' object has no attribute 'translate'"
  | markup e => e.message
  | fault e => e.message

end Crash

/-- How a command ended. -/
structure Exit where
  code : Nat := 0
  output : String := ""
  crash : Option Crash := none
  deriving Inhabited

namespace Exit

/-- The words make no command. -/
def usage : Exit := { code := 2 }

/-- The program ended by an error, after it had printed something. -/
def crashed (c : Crash) (output : String := "") : Exit := { code := 1, output, crash := some c }

end Exit

/-- What a command may look at. -/
structure Surroundings where
  env : List (String × String) := []
  /-- The contents of a file, if there is one. -/
  files : String → Option String
  room : Capacity := {}

def consoleWidth : Nat := 400

def printMarkup (text : String) : String := Layout.print consoleWidth (Layout.shown text)

def printPlain (text : String) : String := Layout.print consoleWidth (Layout.withPictures text)

/-- A fault of a signature or a name in it is told to the user; other faults end the program. -/
def signatureFault : Fault → Exit
  | .malformed _ diagnostics => { code := 2, output := Diagnostic.echoAll consoleWidth diagnostics }
  | .unknownName kind name =>
    let message := (Fault.unknownName kind name).message
    { code := 2, output := printMarkup ("[bold red]Error:[/bold red] " ++ Layout.escape message) }
  | e => .crashed (.fault e)

/-! ## Showing a signature -/

def markupCell (text : String) : String := Layout.withoutControls (Layout.shown text)

def plainCell (text : String) : String := Layout.withoutControls text

def paramRow (slot : String) (name : Option String) (type : String) : List String :=
  [slot, markupCell (name.getD ""), plainCell type]

def paramRows (s : Signature) : List (List String) :=
  let positional (slot : String) (q : Param TypeExpr) := paramRow slot q.name q.type.render
  let keyword (slot : String) (kq : String × Param TypeExpr) := paramRow slot (some kq.1) kq.2.type.render
  s.params.required.map (positional "required")
    ++ s.params.optional.map (positional "optional")
    ++ s.params.rest.toList.map (positional "rest")
    ++ s.params.trailing.map (positional "trailing")
    ++ s.params.requiredKeywords.map (keyword "keyword")
    ++ s.params.optionalKeywords.map (keyword "optional keyword")
    ++ s.params.restKeywords.toList.map (positional "keyword rest")
    ++ s.block.toList.map (fun b =>
      paramRow (if b.required then "block" else "optional block") none b.proc.render)
    ++ [paramRow "return" none s.result.render]

/-- Shows a signature and its parameters. -/
def parse (text : String) : Exit :=
  match (Registry.initial.signature text).1 with
  | .error e => signatureFault e
  | .ok kept =>
    let grid : Layout.Grid :=
      { title := "Parameters", columns := [⟨"Slot", .left⟩, ⟨"Name", .left⟩, ⟨"Type", .left⟩]
        rows := paramRows kept.node }
    { output := printPlain kept.node.render ++ grid.render }

/-! ## Checking a constant -/

def constantAction (settings : Settings) (typeText path : String) :
    Session.Action (Except Failure Value) := do
  Session.configure settings
  tryCatch (.ok <$> Session.assertConstant typeText path) fun e => return .error e

def const (s : Surroundings) (typeText path : String) : Exit :=
  match Settings.ofEnvironment s.env with
  | .error e => .crashed (.setting e)
  | .ok settings =>
    match ((constantAction settings typeText path).run {}).1 with
    | .error (.fault e) => .crashed (.fault e)
    | .ok (.error (.fault e)) => signatureFault e
    | .error (.nonconforming report _) | .ok (.error (.nonconforming report _)) =>
      { code := 1
        output := printMarkup ("[bold red]Failed:[/bold red] " ++ path) ++ printPlain report.render }
    | .ok (.ok v) =>
      { output := printMarkup ("[green]" ++ path ++ "[/green] = " ++ Layout.escape v.written
          ++ " conforms to " ++ Layout.escape typeText) }

/-! ## Showing a report -/

/-- A cell of the coverage table. -/
inductive Cell where
  | marked (text : String)
  | plain (text : String)
  deriving DecidableEq, Repr, Inhabited

namespace Cell

/-- A closing tag of a cell without an open one. -/
def unopened? : Cell → Option Layout.UnopenedTag
  | marked text => Layout.unopened? text
  | plain _ => none

def shown : Cell → String
  | marked text => markupCell text
  | plain text => plainCell text

end Cell

/-- The cell of a name; what is missing leaves it empty. -/
def nameCell : Value → Except Crash Cell
  | .str s => .ok (.marked s)
  | .null => .ok (.marked "")
  | v => .error (.unshowable v.kindName)

def signatureCell : Value → Except Crash Cell
  | .str s => .ok (.plain s)
  | v => .error (.notPlain v.kindName)

def coverageRow (e : LooseKey × LooseTally) : Except Crash (List Cell) := do
  let signature ← signatureCell e.2.signature
  let receiver ← nameCell e.1.receiver
  let method ← nameCell e.1.method
  return [receiver, method, .marked e.1.index.text, signature, .marked e.2.attempted.text,
    .marked e.2.satisfied.text]

def coverageColumns : List Layout.Column :=
  [⟨"Receiver", .left⟩, ⟨"Method", .left⟩, ⟨"#", .right⟩, ⟨"Signature", .left⟩, ⟨"Attempted", .right⟩,
    ⟨"Satisfied", .right⟩]

def unopenedCell? (rows : List (List Cell)) : Option Layout.UnopenedTag :=
  (List.range coverageColumns.length).findSome? fun i =>
    rows.findSome? fun row => (row[i]?).bind Cell.unopened?

/-- The coverage table; `missing` leaves out the overloads that were satisfied. -/
def coverageGrid (name : String) (missing : Bool) (c : Coverage) : Except Crash Layout.Grid := do
  let entries ← c.sorted.mapError .ledger
  let rows ← (entries.filter fun e => !missing || !e.2.satisfied.truth).mapM coverageRow
  match unopenedCell? rows with
  | some e => .error (.markup e)
  | none =>
    return { title := markupCell ("Signature coverage: " ++ name), columns := coverageColumns
             rows := rows.map (·.map Cell.shown) }

def shownPath (path : String) : String × String :=
  match Value.pathOf path with
  | .path p => (p, ((p.splitOn "/").getLast?).getD "")
  | _ => (path, path)

def cannotRead (shown : String) (e : ReportError) : Exit :=
  let told := "[bold red]Error:[/bold red] Cannot read " ++ shown ++ ": " ++ e.message
  match Layout.unopened? told with
  | some e => .crashed (.markup e)
  | none => { code := 1, output := printMarkup told }

/-- Shows coverage: the table first, then the sums. -/
def showCoverage (name : String) (missing : Bool) (c : Coverage) : Exit :=
  match coverageGrid name missing c with
  | .error e => .crashed e
  | .ok grid =>
    match c.totals with
    | .error e => .crashed (.ledger e) grid.render
    | .ok t =>
      { output := grid.render ++ printMarkup
          (s!"{t.overloads} overloads, {t.satisfied.text} satisfied checks, "
            ++ s!"{t.unexercised} never satisfied") }

/-- Shows a report. -/
def coverage (s : Surroundings) (missing : Bool) (path : String) : Exit :=
  match s.files path with
  | none => .usage
  | some contents =>
    let (shown, name) := shownPath path
    match Coverage.load contents s.room with
    | .error e => if e.isReported then cannotRead shown e else .crashed (.report e)
    | .ok c => showCoverage name missing c

/-! ## Commands -/

/-- Runs a command by its name; there is no result when there is no such command. -/
def command? (s : Surroundings) (name : String) : Option (List String → Exit) :=
  let withOperands (flags : List Flag) (body : Arguments → Option Exit) (words : List String) : Exit :=
    ((arguments? flags true words).bind body).getD .usage
  match name with
  | "parse" => some (withOperands [] fun a => match a.operands with
    | [text] => some (parse text)
    | _ => none)
  | "const" => some (withOperands [] fun a => match a.operands with
    | [type, path] => some (const s type path)
    | _ => none)
  | "coverage" => some (withOperands [{ long := "--missing", short := some 'm' }] fun a =>
    match a.operands with
    | [path] => some (coverage s (a.has "--missing") path)
    | _ => none)
  | _ => none

/-- Runs the words of a command line.  The level for records is put into effect once the command is
known and before its own words are looked at. -/
def run (s : Surroundings) (words : List String) : Exit :=
  let flags : List Flag := [{ long := "--log-level", short := some 'l', takesValue := true }]
  match arguments? flags false words with
  | none => .usage
  | some a =>
    match a.operands with
    | [] => .usage
    | name :: rest =>
      match command? s name with
      | none => .usage
      | some body =>
        match Settings.readLevel ((a.value? "--log-level").getD "WARNING") with
        | .error e => .crashed (.setting e)
        | .ok _ => body rest

end Command

end Conformance
