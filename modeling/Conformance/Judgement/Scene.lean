import Conformance.Bindings
import Conformance.Fault
import Conformance.Log
import Conformance.Verdict

/-!
# Judging as a computation

Judging a value gives a verdict or a fault.  On the way it may bind type variables, run code of the
program under test, look up names and log records; the `Scene` keeps all of that, and keeps it also when
the judgement ends in a fault.

Demands are met one after the other: the first that is not met ends the judgement (`Judging.allOf`).
Alternatives are tried one after the other, each from the same bindings (`Judging.firstOf`).  What a failed
alternative did to the state of the program stays done.
-/

namespace Conformance

/-- Something that happened during a judgement besides its verdict. -/
inductive Event where
  /-- A class name was looked up. -/
  | resolved (name : String)
  /-- An alias was expanded. -/
  | expanded (name : String)
  /-- Something was logged. -/
  | noted (r : LogRecord)
  deriving DecidableEq, Repr, Inhabited

/-- Where a judgement takes place.  Without bindings type variables stay open. -/
structure Scene where
  world : World := {}
  bindings : Option Bindings := none
  /-- What has happened, the latest first. -/
  events : List Event := []
  deriving Inhabited

abbrev Judging (α : Type) := ExceptT Fault (StateM Scene) α

/-- A way to judge a value against a type at a path. -/
abbrev Judge := Value → TypeExpr → Path → Judging Verdict

namespace Judging

variable {α : Type}

/-- Takes note of an event. -/
def happen (e : Event) : Judging Unit := modify fun s => { s with events := e :: s.events }

/-- Runs code of the program under test. -/
def running (run : Run α) : Judging α := ExceptT.mk fun s =>
  match run.run.run s.world with
  | (.ok a, world) => (.ok a, { s with world })
  | (.error r, world) => (.error (.raised r), { s with world })

def demand (result : Except Fault α) : Judging α := ExceptT.mk (return result)

def resolve (v : Value) : Judging Value := return (← get).world.resolve v

/-- The value is accepted, or rejected for a reason of its own. -/
def decide (accepted : Bool) (m : Mismatch) : Judging Verdict :=
  return if accepted then .yes else .no m

/-- Goes on if the value is accepted so far. -/
def andThen (first second : Judging Verdict) : Judging Verdict := do
  let verdict ← first
  if verdict.isOk then second else return verdict

/-- Meets demands in order, up to the first that is not met. -/
def allOf : List (Judging Verdict) → Judging Verdict
  | [] => return .yes
  | demand :: demands => demand.andThen (allOf demands)

/-- Judges, and forgets what was bound unless the value is accepted. -/
def tentatively (attempt : Judging Verdict) : Judging Verdict := ExceptT.mk fun s =>
  match attempt.run.run s with
  | (.ok verdict, after) =>
    (.ok verdict, if verdict.isOk then after else { after with bindings := s.bindings })
  | (.error e, after) => (.error e, { after with bindings := s.bindings })

/-- Tries alternatives in order, each from the same bindings; the first that accepts decides.  `rejected`
is the rejection when all have failed, from what they failed with; `failures` are those before. -/
def firstOf (rejected : List Mismatch → Mismatch) :
    (failures : List Mismatch) → List (Judging Verdict) → Judging Verdict
  | failures, [] => return .no (rejected failures)
  | failures, attempt :: attempts => do
    match ← attempt.tentatively with
    | .no m => firstOf rejected (failures ++ [m]) attempts
    | verdict => return verdict

end Judging

end Conformance
