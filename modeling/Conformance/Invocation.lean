import Conformance.Judgement.Context

/-!
# Invocations

One call of a method.  At most one of its arguments may be marked as the block: it is replaced by a
traced one, which records every call of it.  A call is made once; what it returned or raised is kept.
-/

namespace Conformance

/-- A call of a method, before or after it is made. -/
structure Invocation where
  receiver : Value
  method : String
  /-- The positional arguments without the block. -/
  args : List Value := []
  /-- The keyword arguments without the block. -/
  keywords : List (String × Value) := []
  /-- What the block calls, if there is one. -/
  block : Option Value := none
  /-- The positional arguments that the method gets. -/
  callArgs : List Value := []
  /-- The keyword arguments that the method gets. -/
  callKeywords : List (String × Value) := []
  /-- How the call ended, once it is made. -/
  outcome : Option (Except Raised Value) := none
  blockCalls : List BlockCall := []
  deriving Inhabited

namespace Value

/-- What a block marker calls. -/
def marked? : Value → Option Value
  | block v => some v
  | _ => none

/-- The value that a method gets for an argument: a traced block for a marker. -/
def passed : Value → Value
  | block v => traced v
  | v => v

end Value

namespace Invocation

def prepare (receiver : Value) (method : String) (args : List Value)
    (keywords : List (String × Value)) : Except Fault Invocation :=
  let blocks := args.filterMap Value.marked? ++ keywords.filterMap fun kv => kv.2.marked?
  if 1 < blocks.length then .error .manyBlocks else .ok
    { receiver, method
      args := args.filter fun v => v.marked?.isNone
      keywords := keywords.filter fun kv => kv.2.marked?.isNone
      block := blocks.head?
      callArgs := args.map Value.passed
      callKeywords := keywords.map fun kv => (kv.1, kv.2.passed) }

def hasBlock (i : Invocation) : Bool := i.block.isSome

/-- Has the call been made? -/
def isPerformed (i : Invocation) : Bool := i.outcome.isSome

/-- What the call returned; nothing if it did not. -/
def result (i : Invocation) : Value :=
  match i.outcome with
  | some (.ok v) => v
  | _ => .null

/-- What the call raised, if it did. -/
def error? (i : Invocation) : Option Raised :=
  match i.outcome with
  | some (.error r) => some r
  | _ => none

def receiverText (i : Invocation) : String := i.receiver.receiverText

/-- The method with its receiver. -/
def label (i : Invocation) : String :=
  match i.receiver with
  | .classObject c => c.typeName ++ "." ++ i.method
  | .moduleObject name => name ++ "." ++ i.method
  | r => r.receiverText ++ "#" ++ i.method

/-- Makes the call, on the receiver that `target` refers to, and keeps how it ended. -/
def perform (p : Program) (target : Value) (i : Invocation) : Run (Except Fault Invocation) := do
  if i.isPerformed then return .error (.alreadyCalled i.label)
  match ← p.ask p.invoke target i.method with
  | none => return .error (.noAttribute (Program.owner i.receiver) i.method)
  | some method =>
    modify fun w => { w with blockCalls := [] }
    let call : Run (Except Raised Value) := .ok <$> p.invoke method i.callArgs i.callKeywords
    let outcome ← tryCatch call fun r => return .error r
    return .ok { i with outcome, blockCalls := (← get).blockCalls }

def raisedMessage (p : Program) (i : Invocation) (r : Raised) : Run String := do
  let text ← p.textOf p.invoke r.toValue
  return s!"`{i.label}` raised {r.error.name}: {text}"

def presentedNamed (p : Program) (vs : List (String × Value)) : Run (List (String × Value)) :=
  vs.mapM fun kv => do return (kv.1, ← p.presented kv.2)

/-- How a call ended, as it is presented to the outside. -/
def presentedOutcome (p : Program) : Except Raised Value → Run (Except Raised Value)
  | .ok v => .ok <$> p.presented v
  | .error r => .error <$> p.presentedError r

def presentedCall (p : Program) (c : BlockCall) : Run BlockCall := do
  return ⟨← c.args.mapM p.presented, ← presentedNamed p c.keywords, ← presentedOutcome p c.outcome⟩

def presented (p : Program) (i : Invocation) : Run Invocation := do
  return { i with
    args := ← i.args.mapM p.presented
    keywords := ← presentedNamed p i.keywords
    callArgs := ← i.callArgs.mapM p.presented
    callKeywords := ← presentedNamed p i.callKeywords
    outcome := ← i.outcome.mapM (presentedOutcome p)
    blockCalls := ← i.blockCalls.mapM (presentedCall p) }

end Invocation

end Conformance
