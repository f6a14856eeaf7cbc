import Conformance.Judgement.Scene
import Conformance.Program.Run
import Conformance.Registry
import Conformance.Sampling

/-!
# Context of judging

What judging depends on besides the value and the type, and what stays the same while it goes on: the
program, the registry, how many elements of a collection are looked at, the classes whose instances are
never checked, and the receiver that `self`, `instance` and `class` refer to.

`Context.sampled` looks at the elements of a collection that a sample takes in, one after the other.  None
is taken from the collection before the ones before it have been accepted.
-/

namespace Conformance

/-- What judging depends on. -/
structure Context where
  program : Program := {}
  registry : Registry := .initial
  /-- How many elements of a collection are looked at; none means all. -/
  sampleSize : Option Int := some 100
  /-- Classes whose instances satisfy everything. -/
  doubles : List Target := []
  receiver : Option Value := none
  /-- Is there somebody to read the records? -/
  logging : Bool := false
  deriving Inhabited

namespace Context

def isInstance (ctx : Context) (v : Value) (c : ClassId) : Bool := ctx.program.isInstance v c

/-- Is the value an instance of an abstract container class? -/
def isContainer (ctx : Context) (v : Value) (name : String) : Bool := ctx.isInstance v (.container name)

def isInstanceOfAny (ctx : Context) (v : Value) (cs : List ClassId) : Bool := cs.any (ctx.isInstance v)

/-- Is the value an instance of one of these classes, asked in order?  A module is no class. -/
def isAmong (ctx : Context) (v : Value) : List Target → Except Fault Bool
  | [] => .ok false
  | .ofClass c :: ts => if ctx.isInstance v c then .ok true else ctx.isAmong v ts
  | .ofModule _ :: _ => .error .notAClass

def isSubclassObject (ctx : Context) (v : Value) (c : ClassId) : Bool :=
  match v with
  | .classObject d => ctx.program.isSubclass d c
  | _ => false

def matchesReceiver (ctx : Context) (receiver v : Value) (kind : Base) : Bool :=
  match receiver with
  | .moduleObject m =>
    match v with
    | .moduleObject n => m == n
    | _ => false
  | .classObject c => if kind == .instanceType then ctx.isInstance v c else ctx.isSubclassObject v c
  | r => if kind == .classType then ctx.isSubclassObject v r.classOf else ctx.isInstance v r.classOf

/-- Logs a record, if there is somebody to read it.  Showing a value in it may run code of the program. -/
def note (ctx : Context) (level : LogLevel) (source : LogSource) (message : Run String) : Judging Unit := do
  if ctx.logging then
    let text ← Judging.running message
    Judging.happen (.noted ⟨level, source, text⟩)

/-! ## Looking into values -/

def shown (ctx : Context) (v : Value) : Run String := ctx.program.shown ctx.program.invoke v

/-- The number of elements that a value says it has. -/
def size (ctx : Context) (v : Value) : Run Nat := ctx.program.size ctx.program.invoke v

/-- Begins to go through the elements of a value. -/
def feed (ctx : Context) (v : Value) : Run Feed := ctx.program.feed ctx.program.invoke v

def next (ctx : Context) (feed : Feed) : Run (Option (Value × Feed)) :=
  ctx.program.next ctx.program.invoke feed

def item (ctx : Context) (v key : Value) : Run Value := ctx.program.item ctx.program.invoke v key

/-- Runs code of the program as part of a sample.  An error that would end an iteration must not end the
sample with it, and becomes another. -/
def sampling {α : Type} (ctx : Context) (run : Run α) : Judging α :=
  Judging.running (tryCatch run fun r =>
    if ctx.program.isSubclass r.error (.builtin "StopIteration") then
      throw (.builtin "RuntimeError" "generator raised StopIteration")
    else throw r)

/-- Goes through at most `left` elements of a feed, the first of them at position `i`, and looks at the
wanted ones.  `done` follows when none is left to take. -/
def visit (ctx : Context) (wanted : Nat → Bool) (look : Nat → Value → Judging Verdict)
    (done : Judging Verdict) : (left i : Nat) → Feed → Judging Verdict
  | 0, _, _ => done
  | left + 1, i, feed => do
    match ← ctx.sampling (ctx.next feed) with
    | none => return .yes
    | some (v, rest) =>
      (if wanted i then look i v else return .yes).andThen (ctx.visit wanted look done left (i + 1) rest)

def visitAt (ctx : Context) (v : Value) (look : Nat → Value → Judging Verdict) :
    List Nat → Judging Verdict
  | [] => return .yes
  | i :: rest => do
    let w ← ctx.sampling (ctx.item v (.int i))
    (look i w).andThen (ctx.visitAt v look rest)

def access (ctx : Context) (v : Value) : Sampling.Access :=
  if !ctx.isContainer v "Sized" then .unsized
  else if ctx.isContainer v "Sequence" then .byIndex
  else .sized

def carryOut (ctx : Context) (v : Value) (look : Nat → Value → Judging Verdict) :
    Sampling.Plan → Judging Verdict
  | .all => do
    let feed ← ctx.sampling (ctx.feed v)
    let endless := Judging.demand (.error (.raised ⟨.builtin "MemoryError", []⟩))
    ctx.visit (fun _ => true) look endless (feed.bound ctx.program.feedLimit (← get).world) 0 feed
  | .first limit => do
    let feed ← ctx.sampling (ctx.feed v)
    let count ← Judging.demand (Sampling.firstCount limit)
    ctx.visit (fun _ => true) look (return .yes) count 0 feed
  | .pickOut wanted => ctx.visitAt v look wanted
  | .goThrough wanted => do
    let feed ← ctx.sampling (ctx.feed v)
    match wanted.getLast? with
    | some last => ctx.visit wanted.contains look (return .yes) (last + 1) 0 feed
    | none =>
      match ← ctx.sampling (ctx.next feed) with
      | none => return .yes
      | some _ => Judging.demand (.error .negativeSample)

def sampled (ctx : Context) (v : Value) (look : Nat → Value → Judging Verdict) : Judging Verdict := do
  let access := ctx.access (← Judging.resolve v)
  let size ← if ctx.sampleSize.isSome && access != .unsized then ctx.sampling (ctx.size v) else pure 0
  ctx.carryOut v look (← Judging.demand (Sampling.plan access size ctx.sampleSize))

end Context

namespace Value

/-- A receiver in words: a module by name, a class as a singleton, anything else by its class. -/
def receiverText : Value → String
  | .moduleObject name => name
  | .classObject c => "singleton(" ++ c.typeName ++ ")"
  | v => v.typeName

end Value

end Conformance
