import Conformance.Invocation
import Conformance.Judgement
import Conformance.Overload.Pairing

/-!
# Overload resolution

A performed call is checked against signatures in the order they are declared; the first that is
satisfied wins.  Checking one signature means going through its checks in order, with one set of
bindings: the shape of the arguments, every argument, the block and each of its calls, and what was
returned or raised.  The first check that fails decides the diagnostic.
-/

namespace Conformance

/-- One thing that a signature asks of a call. -/
inductive Check where
  /-- The value in a slot has a type. -/
  | slot (label : String) (v : Value) (t : TypeExpr)
  /-- The call does not have the shape that the signature asks for. -/
  | fails (d : Diagnostic)
  /-- The call raised an error where a result of a type was asked for. -/
  | raised (r : Raised) (t : TypeExpr)
  deriving Inhabited

namespace Check

/-- The checks of paired arguments; `suffix` says which call they belong to. -/
def ofSlots (suffix : String) (slots : List (Conformance.Slot TypeExpr Value)) : List Check :=
  slots.map fun s => .slot (s.label ++ suffix) s.value s.param.type

def ofArguments (text : String) (s : Signature) (i : Invocation) : List Check :=
  match s.params.pair "argument" i.args i.keywords with
  | .error e => [.fails
    { kind := .shapeMismatch, message := e.message, signature := some text
      expected := some s.params.text }]
  | .ok slots => ofSlots "" slots

def ofBlockCall (text : String) (b : Block TypeExpr) (number : Nat) (c : BlockCall) : List Check :=
  let suffix := s!"of block call {number}"
  match b.params.pair "block argument" c.args c.keywords with
  | .error e => [.fails
    { kind := .shapeMismatch, message := s!"{e.message} ({suffix})", signature := some text
      slot := some s!"block call {number}", expected := some b.params.text }]
  | .ok slots =>
    let returned := match c.outcome with
      | .ok v => [.slot s!"block return value {suffix}" v b.result]
      | .error _ => []
    ofSlots (" " ++ suffix) slots ++ returned

/-- The checks of the block: that it is given where it is declared, that a required one was called, and
every call of it. -/
def ofBlock (text : String) (s : Signature) (i : Invocation) : List Check :=
  let report (kind : DiagnosticKind) (message : String) : Diagnostic :=
    { kind, message, signature := some text, slot := some "block"
      expected := s.block.map (·.text) }
  match s.block with
  | none =>
    if i.hasBlock then [.fails (report .unexpectedBlock "block given but none is declared")] else []
  | some b =>
    if !i.hasBlock then
      if b.required then [.fails (report .missingBlock "required block is not given")] else []
    else if b.required && i.blockCalls.isEmpty then
      [.fails { report .blockNotCalled "required block was never called" with
        hint := some "a required block must be invoked at least once" }]
    else i.blockCalls.zipIdx.flatMap fun (c, number) => ofBlockCall text b number c

/-- The check of what the call returned or raised. -/
def ofOutcome (s : Signature) (i : Invocation) : List Check :=
  match i.error? with
  | none => [.slot "return value" i.result s.result]
  | some r => if s.declaresError then [] else [.raised r s.result]

/-- Everything that a signature asks of a call, in order. -/
def ofSignature (s : Signature) (i : Invocation) : List Check :=
  let text := s.label
  ofArguments text s i ++ ofBlock text s i ++ ofOutcome s i

end Check

/-- The diagnostic of a rejected value. -/
def Mismatch.diagnostic (text : String) (m : Mismatch) : Diagnostic where
  kind := if m.conflict.any (!·.isEmpty) then .bindingConflict else .classifyFailure
  message := s!"{m.path.text}: {m.reason.message}"
  signature := some text
  slot := some m.path.text
  expected := some m.expected.render
  actual := some m.actual.typeName

/-- The diagnostic of an error that the signature does not declare; `shown` is its text. -/
def Raised.diagnostic (text : String) (r : Raised) (t : TypeExpr) (shown : String) : Diagnostic where
  kind := .unexpectedError
  message := s!"raised {r.error.name}: {shown}"
  signature := some text
  slot := some "return value"
  expected := some t.render
  actual := some r.error.typeName
  cause := some ⟨r.error.name, shown⟩

namespace Context

/-- Goes through checks up to the first that fails, and gives its diagnostic. -/
def runChecks (ctx : Context) (text : String) : List Check → Judging (Option Diagnostic)
  | [] => return none
  | .fails d :: _ => return some d
  | .raised r t :: _ => do
    let shown ← Judging.running (ctx.program.textOf ctx.program.invoke r.toValue)
    return some (r.diagnostic text t shown)
  | .slot label v t :: rest => do
    match ← ctx.satisfies v t label with
    | .no m => return some (m.diagnostic text)
    | _ => ctx.runChecks text rest

/-- Checks a performed call against one signature, from no bindings. -/
def checkSignature (ctx : Context) (i : Invocation) (s : Signature) : Judging (Option Diagnostic) := do
  modify fun scene => { scene with bindings := some .empty }
  ctx.runChecks s.label (Check.ofSignature s i)

end Context

/-- One signature that was tried, and why it failed, if it did. -/
structure Attempt where
  index : Nat
  signature : Signature
  failure : Option Diagnostic := none
  deriving Inhabited

/-- Which of the signatures a call satisfies. -/
structure Resolution where
  matched : Option Nat := none
  attempts : List Attempt := []
  /-- The bindings under which the call satisfies the signature. -/
  bindings : Option Bindings := none
  deriving Inhabited

namespace Resolution

/-- Does the call satisfy one of the signatures? -/
def isOk (r : Resolution) : Bool := r.matched.isSome

/-- The signature that the call satisfies. -/
def signature? (r : Resolution) : Option Signature :=
  r.matched.bind fun i => (r.attempts[i]?).map (·.signature)

/-- Why each of the signatures tried failed. -/
def diagnostics (r : Resolution) : List Diagnostic := r.attempts.filterMap (·.failure)

end Resolution

namespace Context

/-- Tries signatures in order from number `index` on; `tried` are the attempts before. -/
def resolveFrom (ctx : Context) (i : Invocation) :
    (index : Nat) → List Attempt → List Signature → Judging Resolution
  | _, tried, [] => return { attempts := tried }
  | index, tried, s :: rest => do
    match ← ctx.checkSignature i s with
    | none =>
      ctx.note .debug .resolver (return s!"`{i.label}` matches overload {index}: {s.render}")
      return ⟨some index, tried ++ [⟨index, s, none⟩], (← get).bindings⟩
    | some d =>
      ctx.note .debug .resolver (return s!"`{i.label}` does not match overload {index}: {d.message}")
      ctx.resolveFrom i (index + 1) (tried ++ [⟨index, s, some d⟩]) rest

/-- Finds the first signature that a performed call satisfies. -/
def resolve (ctx : Context) (i : Invocation) (signatures : List Signature) : Judging Resolution :=
  ctx.resolveFrom i 0 [] signatures

end Context

end Conformance
