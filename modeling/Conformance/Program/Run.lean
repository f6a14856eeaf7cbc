import Conformance.Program.Method

/-!
# Running programs

Expressions, scripts and calls.  Every piece is a function of the way to call something, so the recursion is
in one place, `Program.call`, whose fuel bounds how deeply calls nest.
-/

namespace Conformance

/-- What a script works with: its receiver and arguments, and the results of its calls so far. -/
structure Frame where
  receiver : Value := .null
  args : List Value := []
  keywords : List (String × Value) := []
  results : List Value := []
  deriving Inhabited

namespace Program

/-! ## Expressions -/

mutual

def evaluate (p : Program) (call : Caller) (frame : Frame) : Expr → Run Value
  | .arg i =>
    let place := if i < 0 then i + frame.args.length else i
    match if place < 0 then none else frame.args[place.toNat]? with
    | some v => return v
    | none => throw (.builtin "IndexError" "tuple index out of range")
  | .keyword name =>
    match frame.keywords.lookup name with
    | some v => return v
    | none => throw (.builtin "KeyError" name)
  | .receiver => return frame.receiver
  | .args => return .sequence .tuple frame.args
  | .last => return (frame.results.getLast?).getD .null
  | .results => return .sequence .list frame.results
  | .textOf e => do return .str (← p.textOf call (← evaluate p call frame e))
  | .value v => made v
  | .shared name => do
    match (← get).shared.lookup name with
    | some v => return v
    | none => throw (.builtin "KeyError" name)
  | .classNamed name => return .classObject (p.classNamed name)
  | .sequence kind items => do
    if kind == .set || kind == .frozenset then return .sequence kind (← evaluateElements p call frame [] items)
    else made (.sequence kind (← evaluateAll p call frame items))
  | .mapping kind entries => do made (.mapping kind (← evaluateEntries p call frame [] entries))
  | .iterator kind items => do made (.iterator kind (← evaluateAll p call frame items))
  | .stream text => made (.stream text 0)
  | .standIn kind e => do made (.standIn kind (← evaluate p call frame e))
  | .block e => do p.blockOf (← evaluate p call frame e)
  | .error className args => do
    p.construct call (p.classNamed className) (← evaluateAll p call frame args) []
  | .object className args attributes => do
    let v ← p.construct call (p.classNamed className) (← evaluateAll p call frame args) []
    dress v (← evaluateNamed p call frame attributes)

def evaluateAll (p : Program) (call : Caller) (frame : Frame) : List Expr → Run (List Value)
  | [] => return []
  | e :: es => do
    let v ← evaluate p call frame e
    return v :: (← evaluateAll p call frame es)

/-- The elements of a set with the values of expressions, each made and then put in. -/
def evaluateElements (p : Program) (call : Caller) (frame : Frame) (items : List Value) :
    List Expr → Run (List Value)
  | [] => return items
  | e :: es => do
    let v ← evaluate p call frame e
    evaluateElements p call frame (← p.insertElement call items v) es

/-- The entries of a mapping with the values of pairs of expressions, each made and then put in. -/
def evaluateEntries (p : Program) (call : Caller) (frame : Frame) (entries : List (Value × Value)) :
    List (Expr × Expr) → Run (List (Value × Value))
  | [] => return entries
  | (k, e) :: es => do
    let key ← evaluate p call frame k
    let v ← evaluate p call frame e
    evaluateEntries p call frame (← p.insertEntry call entries (key, v)) es

def evaluateNamed (p : Program) (call : Caller) (frame : Frame) :
    List (String × Expr) → Run (List (String × Value))
  | [] => return []
  | (name, e) :: es => do
    let v ← evaluate p call frame e
    return (name, v) :: (← evaluateNamed p call frame es)

end

/-- Named values as the keywords of a call: of equal names the last value counts, at the first place. -/
def keywordsOf (vs : List (String × Value)) : List (String × Value) :=
  vs.foldl (fun ks kv => if ks.any (·.1 == kv.1) then
    ks.map fun k => if k.1 == kv.1 then kv else k else ks ++ [kv]) []

/-! ## Scripts -/

def runSteps (p : Program) (call : Caller) (frame : Frame) : List Step → Run Value
  | [] => return .null
  | .call f args keywords :: rest => do
    let f ← p.evaluate call frame f
    let args ← p.evaluateAll call frame args
    let keywords ← p.evaluateNamed call frame keywords
    let r ← call (.value f) args (keywordsOf keywords)
    runSteps p call { frame with results := frame.results ++ [r] } rest
  | .attempt f args :: rest => do
    let body : Run Value := do
      let f ← p.evaluate call frame f
      call (.value f) (← p.evaluateAll call frame args) []
    let r ← tryCatch body fun _ => return .null
    runSteps p call { frame with results := frame.results ++ [r] } rest
  | .each f collection :: rest => do
    let f ← p.evaluate call frame f
    let feed ← p.feed call (← p.evaluate call frame collection)
    let rs ← p.mapFeed call f (feed.bound p.feedLimit (← get)) feed
    runSteps p call { frame with results := frame.results ++ rs } rest
  | .answer e :: _ => p.evaluate call frame e
  | .fail className args :: _ => do
    let error ← p.construct call (p.classNamed className) (← p.evaluateAll call frame args) []
    throw (← raisedBy error)

/-- Calls the block of the invocation and keeps a record of it, however it ends. -/
def callTraced (call : Caller) (f : Value) (args : List Value) (keywords : List (String × Value)) :
    Run Value := do
  let record (outcome : Except Raised Value) : Run Unit :=
    modify fun w => { w with blockCalls := w.blockCalls ++ [⟨args, keywords, outcome⟩] }
  let r ← tryCatch (call (.value f) args keywords) fun e => do
    record (.error e)
    throw e
  record (.ok r)
  return r

/-- Calls something.  When calls nest deeper than the fuel, the program fails. -/
def call (p : Program) : (fuel : Nat) → Caller
  | 0, _, _, _ => throw (.builtin "RecursionError" "maximum recursion depth exceeded")
  | fuel + 1, target, args, keywords => do
    let script (code : Nat) (receiver : Value) (args : List Value) : Run Value := do
      modify fun w => { w with calls := w.calls + 1 }
      runSteps p (p.call fuel) { receiver, args, keywords } (p.script code)
    match target with
    | .bound _ code receiver => script code receiver args
    | .unbound _ code => script code (args.head?.getD .null) args.tail
    | .native owner name receiver =>
      if p.isOwn owner receiver then p.callUnbound (p.call fuel) owner name args keywords
      else p.callNative (p.call fuel) owner name receiver false args keywords
    | .value v =>
      match (← get).resolve v with
      | .function _ code => script code .null args
      | .traced f => callTraced (p.call fuel) f args keywords
      | .builtin name => p.callBuiltin (p.call fuel) name args keywords
      | .classObject c => p.construct (p.call fuel) c args keywords
      | w =>
        match p.member? w.classOf "__call__" with
        | some (.declared _ m) => p.call fuel ((bindToInstance w m).withReceiver v) args keywords
        | _ => typeError s!"'{w.kindName}' object is not callable"

def invoke (p : Program) : Caller := p.call (p.callDepth + 1)

def make (p : Program) (e : Expr) : Run Value := p.evaluate p.invoke {} e

def share (p : Program) (name : String) (e : Expr) : Run Unit := do
  let v ← p.make e
  modify (·.share name v)

/-! ## Presentation -/

section Presentation

variable (describe : Value → Run Value)

mutual

def onErrors : Value → Run Value
  | .error c args => describe (.error c args)
  | .object c (some (.error d args)) attributes => describe (.object c (some (.error d args)) attributes)
  | .sequence kind items => do return .sequence kind (← onErrorsAll items)
  | .mapping kind entries => do return .mapping kind (← onErrorsEntries entries)
  | .standIn kind v => do return .standIn kind (← onErrors v)
  | v => return v

def onErrorsAll : List Value → Run (List Value)
  | [] => return []
  | v :: vs => do
    let w ← onErrors v
    return w :: (← onErrorsAll vs)

def onErrorsEntries : List (Value × Value) → Run (List (Value × Value))
  | [] => return []
  | (k, v) :: es => do
    let key ← onErrors k
    let w ← onErrors v
    return (key, w) :: (← onErrorsEntries es)

end

end Presentation

/-- An error with its text as its only argument. -/
def described (p : Program) (v : Value) : Run Value := do
  return .error v.classOf [.str (← p.textOf p.invoke v)]

/-- A value as it is presented to the outside: as it stands now, and every error in it with its text as
its only argument. -/
def presented (p : Program) (v : Value) : Run Value := do onErrors p.described ((← get).view v)

def presentedError (p : Program) (r : Raised) : Run Raised := do
  return { r with args := [.str (← p.textOf p.invoke r.toValue)] }

end Program

end Conformance
