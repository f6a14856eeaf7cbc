import Conformance.Ledger.Report
import Conformance.Session

/-!
# Test runs

What a test run adds to the checks themselves: its options, its settings, one ledger for all checks, and
a summary at the end.
-/

namespace Conformance

namespace TestRun

/-- A command-line option of a test run. -/
structure RunOption where
  flag : String
  target : String
  placeholder : String
  deriving DecidableEq, Repr, Inhabited

/-- The group that the options are listed under, and what it is about. -/
def optionGroup : String × String := ("sigconf", "signature conformance")

def options : List RunOption :=
  [⟨"--sigconf-report", "sigconf_report", "PATH"⟩,
    ⟨"--sigconf-sample-size", "sigconf_sample_size", "N"⟩]

/-- Why a test run cannot start. -/
inductive StartError where
  /-- A setting of the environment cannot be used. -/
  | setting (e : SettingError)
  /-- An option cannot be used. -/
  | option (e : SettingError)
  deriving DecidableEq, Repr, Inhabited

namespace StartError

def message : StartError → String
  | setting e | option e => e.message

end StartError

/-- The settings of a test run: those of the environment, with the sample size of the option. -/
def configure (env : List (String × String)) (sampleSize : Option String) :
    Except StartError Settings := do
  let settings ← (Settings.ofEnvironment env).mapError .setting
  let settings ← match sampleSize with
    | none => pure settings
    | some value => do
      let size ← (Settings.readSampleSize (some value)).mapError .option
      pure { settings with sampleSize := size }
  let _ ← (Settings.readLevel settings.logLevel).mapError .setting
  return settings

/-- A line of the summary. -/
inductive SummaryLine where
  /-- A line drawn with a character around a title. -/
  | rule (mark title : String)
  | text (s : String)
  deriving DecidableEq, Repr, Inhabited

/-- How many overloads that were never satisfied the summary lists. -/
def summaryLimit : Nat := 20

/-- The line for an overload that was never satisfied. -/
def unexercisedLine (l : Ledger) (key : LedgerKey) : SummaryLine :=
  let signature := ((l.tally? key).map (·.signature)).getD ""
  .text s!"  {key.receiver}#{key.method} [{key.index.text}] {signature}"

/-- The summary of a run; there is none when nothing was checked. -/
def summary (l : Ledger) : List SummaryLine :=
  let t := l.totals
  if t.overloads == 0 then [] else
  let missing := l.unexercised
  let more := missing.length - summaryLimit
  [.rule "-" "signature coverage",
    .text (s!"{t.overloads} overloads, {t.attempted} attempted, "
      ++ s!"{t.satisfied} satisfied, {t.unexercised} never satisfied")]
    ++ (missing.take summaryLimit).map (unexercisedLine l)
    ++ (if more == 0 then [] else [.text s!"  ... and {more} more"])

end TestRun

end Conformance
