import Conformance.Diagnostic.Rendering
import Conformance.Ledger
import Conformance.Overload
import Conformance.Settings

/-!
# Checking sessions

A session makes calls and checks them against their declared overloads, and keeps a ledger of what was
tried.  `check` passes when the call conforms to one of the overloads, `refute` when it conforms to
none; both make the call once, and change the session in the same way.

An action that fails still leaves its mark on the session: names looked up before the failure stay
looked up, and a call once made stays made.
-/

namespace Conformance

/-- The state of a session. -/
structure Session where
  program : Program := {}
  world : World := {}
  registry : Registry := .initial
  ledger : Ledger := .empty
  sampleSize : Option Int := some 100
  doubles : List Target := []
  /-- Is there somebody to read the records? -/
  logging : Bool := false
  log : List LogRecord := []
  deriving Inhabited

/-- What a check found. -/
structure Report where
  passed : Bool
  subject : String
  invocation : Option Invocation := none
  resolution : Option Resolution := none
  diagnostics : List Diagnostic := []
  deriving Inhabited

namespace Report

def render (r : Report) : String :=
  if r.passed then s!"`{r.subject}` passed"
  else s!"`{r.subject}` failed:\n" ++ Diagnostic.renderAll r.diagnostics

/-- What the call returned. -/
def result (r : Report) : Value := (r.invocation.map (·.result)).getD .null

/-- What the call raised, if it did. -/
def error? (r : Report) : Option Raised := r.invocation.bind (·.error?)

end Report

/-- Why an action of a session failed. -/
inductive Failure where
  /-- The check could not be made. -/
  | fault (e : Fault)
  /-- The check was made and did not pass; `cause` is the error that the call raised, if it did. -/
  | nonconforming (report : Report) (cause : Option Raised)
  deriving Inhabited

namespace Session

abbrev Action (α : Type) := ExceptT Failure (StateM Session) α

/-! ## Steps -/

/-- Goes on with a result, or fails. -/
def demand {α : Type} : Except Fault α → Action α
  | .ok a => return a
  | .error e => throw (.fault e)

/-- Logs records, if there is somebody to read them. -/
def note (records : List LogRecord) : Action Unit :=
  modify fun s => if s.logging then { s with log := s.log ++ records } else s

/-- Runs code of the program under test. -/
def running {α : Type} (run : Program → Run α) : Action α := do
  let s ← get
  let (result, world) := (run s.program).run.run s.world
  set { s with world }
  demand (result.mapError .raised)

def consult {α : Type} (ask : Registry → Except Fault α × Registry) : Action α := do
  let (found, registry) := ask (← get).registry
  modify fun s => { s with registry }
  demand found

def lookUp {α : Type} (ask : Registry → Except Fault α × Registry × List LogRecord) : Action α := do
  let (found, registry, records) := ask (← get).registry
  modify fun s => { s with registry }
  note records
  demand found

/-- What judging depends on in this session. -/
def context (s : Session) (receiver : Option Value) : Context where
  program := s.program
  registry := s.registry
  sampleSize := s.sampleSize
  doubles := s.doubles
  receiver := receiver.map s.world.resolve
  logging := s.logging

/-- Judges in this session, from the given bindings.  What the judgement did is done, also when it ends in a
fault; the result comes with the bindings after it. -/
def judging {α : Type} (receiver : Option Value) (bindings : Option Bindings)
    (judgement : Context → Judging α) : Action (Except Fault α × Option Bindings) := do
  let s ← get
  let (result, scene) := (judgement (s.context receiver)).run.run { world := s.world, bindings }
  let (registry, records) := s.registry.replay scene.events.reverse
  set { s with registry, world := scene.world }
  note records
  return (result, scene.bindings)

/-- Puts settings into effect.  The classes that are not checked are looked up in order. -/
def configure (settings : Settings) : Action Unit := do
  modify fun s => { s with sampleSize := settings.sampleSize }
  settings.unchecked.forM fun name => do
    let target ← lookUp (·.resolveClass name)
    modify fun s => { s with doubles := s.doubles ++ [target] }

/-- Reads signatures and looks up the names in them. -/
def signatures (texts : List String) : Action (List Signature) := do
  if texts.isEmpty then throw (.fault .noSignature)
  lookUp (·.signatureList texts)

def prepare (target : Value) (method : String) (args : List Value) (keywords : List (String × Value)) :
    Action Invocation := do
  demand (Invocation.prepare ((← get).world.resolve target) method args (Program.keywordsOf keywords))

/-- Makes a prepared call. -/
def perform (target : Value) (i : Invocation) : Action Invocation := do
  let done ← demand (← running (i.perform · target))
  if (← get).logging then
    if let some r := done.error? then
      note [.debug .invocation (← running (i.raisedMessage · r))]
  return done

/-- Finds the overload that a performed call conforms to. -/
def resolve (target : Value) (i : Invocation) (signatures : List Signature) : Action Resolution := do
  let (found, _) ← judging (some target) none fun ctx => ctx.resolve i signatures
  demand found

/-- Enters the attempts at the overloads of a call in the ledger. -/
def enter (i : Invocation) (texts : List String) (r : Resolution) (l : Ledger) : Ledger :=
  let declared := (l.declare i.receiverText i.method texts).2
  r.attempts.foldl (fun l a =>
    (l.recordText i.receiverText i.method (texts.getD a.index "") a.failure.isNone).2) declared

/-! ## Checks -/

/-- Makes a call and resolves it.  Malformed signatures fail before the call is made. -/
def run (texts : List String) (receiver : Value) (method : String) (args : List Value)
    (keywords : List (String × Value)) : Action (Invocation × Resolution) := do
  let signatures ← signatures texts
  let prepared ← prepare receiver method args keywords
  note [.debug .harness s!"Type checking `{prepared.label}`..."]
  let done ← perform receiver prepared
  let resolution ← resolve receiver done signatures
  modify fun s => { s with ledger := enter done (signatures.map (·.label)) resolution s.ledger }
  return (done, resolution)

/-- Checks that a call conforms to one of its overloads. -/
def check (texts : List String) (receiver : Value) (method : String) (args : List Value)
    (keywords : List (String × Value)) : Action Report := do
  let (i, r) ← run texts receiver method args keywords
  if r.isOk then return ⟨true, i.label, i, r, []⟩
  note [.debug .harness s!"`{i.label}` failed with {r.diagnostics.length} diagnostics"]
  return ⟨false, i.label, i, r, r.diagnostics⟩

/-- The diagnostic of a call that conforms though it should not. -/
def unexpectedMatch (i : Invocation) (index : Nat) (s : Signature) : Diagnostic where
  kind := .missingExpectedError
  message := s!"`{i.label}` unexpectedly satisfies overload {index}"
  signature := some s.label
  hint := some "the signature accepts a call it was expected to reject"

/-- Checks that a call conforms to none of its overloads. -/
def refute (texts : List String) (receiver : Value) (method : String) (args : List Value)
    (keywords : List (String × Value)) : Action Report := do
  let (i, r) ← run texts receiver method args keywords
  match r.matched, r.signature? with
  | some index, some s =>
    note [.debug .harness s!"`{i.label}` unexpectedly conforms"]
    return ⟨false, i.label, i, r, [unexpectedMatch i index s]⟩
  | _, _ => return ⟨true, i.label, i, r, []⟩

/-- Makes a call that has to conform, and gives what it returned. -/
def assertConforms (texts : List String) (receiver : Value) (method : String) (args : List Value)
    (keywords : List (String × Value)) : Action Value := do
  let report ← check texts receiver method args keywords
  if report.passed then return report.result else throw (.nonconforming report report.error?)

/-- Makes a call that must not conform. -/
def assertRefuted (texts : List String) (receiver : Value) (method : String) (args : List Value)
    (keywords : List (String × Value)) : Action Report := do
  let report ← refute texts receiver method args keywords
  if report.passed then return report else throw (.nonconforming report none)

def assertSubject (typeText : String) (v : Value) (subject : String) : Action Unit := do
  let t ← consult (·.parseType typeText)
  let (verdict, _) ← judging none none fun ctx => ctx.satisfies v t subject
  match ← demand verdict with
  | .no m =>
    let diagnostic := { m.diagnostic typeText with kind := .classifyFailure }
    throw (.nonconforming { passed := false, subject, diagnostics := [diagnostic] } none)
  | _ => return ()

/-- Checks a value against a type and gives it back. -/
def assertType (typeText : String) (v : Value) : Action Value := do
  assertSubject typeText v "value"
  return v

/-- Checks a constant against a type and gives it. -/
def assertConstant (typeText path : String) : Action Value := do
  let v ← demand (Registry.constantOf path (← get).registry.constants)
  assertSubject typeText v path
  return v

end Session

end Conformance
