import Conformance.Text.Integer
import Conformance.Text.Quoted
import Conformance.Text.Upper

/-!
# Settings

How many elements of a collection are checked, which classes are not checked at all, and from which
level on records are shown.  Settings are read from environment variables.
-/

namespace Conformance

/-- Why a setting cannot be used. -/
inductive SettingError where
  | sampleSize (value : String)
  | level (name : String)
  deriving DecidableEq, Repr, Inhabited

namespace SettingError

def message : SettingError → String
  | sampleSize value => s!"Sample size should be a positive integer or `ALL`: {Text.quoted value}"
  | level name => s!"Unknown level: {Text.quoted name}"

end SettingError

/-- The settings of a check. -/
structure Settings where
  /-- How many elements of a collection are checked; none means all. -/
  sampleSize : Option Int := some 100
  /-- Names of classes whose instances are not checked. -/
  unchecked : List String := []
  logLevel : String := "WARNING"
  deriving DecidableEq, Repr, Inhabited

namespace Settings

/-- The sample size that a text sets.  An empty setting is the default. -/
def readSampleSize (value : Option String) : Except SettingError (Option Int) :=
  match value with
  | none | some "" => .ok (some 100)
  | some text =>
    if Text.upper (Text.trim text) == "ALL" then .ok none else
    match Text.readInteger? text with
    | some (n, digits) =>
      if 0 < n && digits ≤ Text.digitLimit then .ok (some n) else .error (.sampleSize text)
    | none => .error (.sampleSize text)

/-- Does the text switch something on?  Everything does but nothing and the words for no, which are
ASCII. -/
def isOn (value : Option String) : Bool :=
  match value with
  | none | some "" => false
  | some text => !(["0", "false", "no", "off"].contains (Text.trim text).toLower)

def readNames (text : String) : List String :=
  ((text.splitOn ",").map Text.trim).filter fun name => !name.isEmpty

def environmentNames : List String :=
  ["SIGCONF_NO_SAMPLING", "SIGCONF_SAMPLE_SIZE", "SIGCONF_UNCHECKED", "SIGCONF_LOGLEVEL"]

def ofEnvironment (env : List (String × String)) : Except SettingError Settings := do
  let sampleSize ←
    if isOn (env.lookup "SIGCONF_NO_SAMPLING") then pure none
    else readSampleSize (env.lookup "SIGCONF_SAMPLE_SIZE")
  return {
    sampleSize
    unchecked := readNames ((env.lookup "SIGCONF_UNCHECKED").getD "")
    logLevel := Text.upper ((env.lookup "SIGCONF_LOGLEVEL").getD "WARNING") }

/-- The levels of records by name. -/
def levels : List (String × Nat) :=
  [("CRITICAL", 50), ("FATAL", 50), ("ERROR", 40), ("WARNING", 30), ("WARN", 30), ("INFO", 20),
    ("DEBUG", 10), ("NOTSET", 0)]

def readLevel (name : String) : Except SettingError Nat :=
  let key := Text.upper name
  (levels.lookup key).elim (.error (.level key)) .ok

end Settings

end Conformance
