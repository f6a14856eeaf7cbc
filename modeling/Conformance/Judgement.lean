import Conformance.Judgement.Context

/-!
# Judging values against types

`Context.judge` decides whether a value satisfies a type, slot by slot: type variables are bound by
the slot that meets them first.  Each kind of type has its own check, a function of the way to judge
parts, so the recursion is in one place.  It is not a recursion on the type, for an alias may lead back
to itself; the fuel bounds how deep it goes, and running out of it is a fault of its own.
-/

namespace Conformance

namespace Context

open Judging

def mismatch (v : Value) (t : TypeExpr) (path : Path) (reason : Reason) : Mismatch :=
  ⟨reason, path, t, v.classOf, none⟩

/-! ## Checks that look at the value alone -/

def judgeBase (ctx : Context) (kind : Base) (v : Value) (path : Path) : Judging Verdict := do
  let reject (reason : Reason) := mismatch v (.base kind) path reason
  match kind with
  | .top | .void | .boolish => return .yes
  | .bot => return .no (reject .noValueAllowed)
  | .bool => decide (ctx.isInstance v (.builtin "bool")) (reject .notBoolean)
  | .nil => decide v.isNull (reject .notNil)
  | .selfType | .instanceType | .classType =>
    match ctx.receiver with
    | none =>
      ctx.note .debug .classifier (do
        let shown ← ctx.shown v
        return s!"`{kind.text}` checked without a receiver; accepting {shown}")
      return .yes
    | some r => decide (ctx.matchesReceiver r v kind) (reject (.notOfReceiver kind r.receiverText))

/-- Is the value the one that a literal stands for, and of its very class? -/
def isLiteral (v : Value) (l : Literal) : Bool :=
  match v, l.value with
  | .int m, .int n => m == n
  | .str s, .str t => s == t
  | .bool a, .bool b => a == b
  | _, _ => false

/-- Looks up a class name. -/
def target (ctx : Context) (name : String) : Judging Target := do
  let found ← demand (ctx.registry.classOf name)
  happen (.resolved name)
  return found

def judgeSingleton (ctx : Context) (name : String) (v : Value) (path : Path) : Judging Verdict := do
  let m := mismatch v (.singleton name) path (.notSingleton name)
  match ← ctx.target name with
  | .ofModule home => decide (v.equal (.moduleObject home)) m
  | .ofClass c => decide (ctx.isSubclassObject v c) m

/-- What a value answers a capability with.  Special names are looked up on its class. -/
def capability? (ctx : Context) (v : Value) (name : String) : Judging (Option Attribute) := do
  let p := ctx.program
  let found ← running (if Program.isSpecial name then p.special? v name else do
    return (← p.endingOn ["AttributeError"] (p.ask p.invoke v name)).join)
  return found.map (·.resolved (← get).world)

def lacking? (ctx : Context) (v : Value) (c : Capability TypeExpr) : Judging (Option Reason) := do
  let p := ctx.program
  match (← ctx.capability? v c.name).filter p.canCall with
  | none => return some (.lacksMethod c.name)
  | some found =>
    if c.explicit && p.isInherited v c.name then return some (.inheritsMethod c.name)
    return c.params.bind fun params =>
      if Program.fits (p.attributeFormals? found) params then none else some (.methodShape c.name params)

def judgeInterface (ctx : Context) (name : String) (methods : List (Capability TypeExpr)) (v : Value)
    (path : Path) : Judging Verdict :=
  allOf (methods.map fun c => do
    match ← ctx.lacking? v c with
    | none => return .yes
    | some reason => return .no (mismatch v (.interface name methods) path reason))

def judgeProc (ctx : Context) (t : TypeExpr) (params : Params TypeExpr) (v : Value) (path : Path) :
    Judging Verdict :=
  if !ctx.program.isCallable v then return .no (mismatch v t path .notCallable)
  else decide (Program.fits (ctx.program.formals? v) params) (mismatch v t path (.callShape params))

/-- Judges against a type variable.  The first slot binds it; that slot may widen the binding, others
have to agree with it. -/
def judgeTypeVar (ctx : Context) (name : String) (v : Value) (path : Path) : Judging Verdict := do
  let accept (b : Bindings) : Judging Verdict := do
    modify fun s => { s with bindings := some b }
    return .yes
  match (← get).bindings with
  | none => return .maybe name
  | some b =>
    match b.get? name with
    | none => accept (b.bind name v.classOf path.slot)
    | some binding =>
      if ctx.isInstanceOfAny v binding.types then return .yes
      else if binding.origin == path.slot then accept ((b.widen? name v.classOf).getD b)
      else return .no { mismatch v (.typeVar name) path
          (.boundElsewhere name binding.types binding.origin) with conflict := some name }

/-! ## Checks of parts -/

/-- Judges against a union: the earliest alternative that accepts the value wins, with its bindings. -/
def judgeUnion (judge : Judge) (ts : List TypeExpr) (v : Value) (path : Path) : Judging Verdict :=
  let rejected (failures : List Mismatch) : Mismatch :=
    { mismatch v (.union ts) path (.noAlternative (failures.map (·.reason))) with
      conflict := failures.findSome? (·.conflict) }
  firstOf rejected [] (ts.map fun t => judge v t path)

def judgeIntersection (judge : Judge) (ts : List TypeExpr) (v : Value) (path : Path) : Judging Verdict :=
  allOf (ts.map fun t => judge v t path)

/-- Judges the elements of a feed against types, the first of them at position `i`.  An element is taken
also where no type is left for it. -/
def judgeElements (ctx : Context) (judge : Judge) (path : Path) (i : Nat) (feed : Feed) :
    List TypeExpr → Judging Verdict
  | [] => do
    let _ ← running (ctx.next feed)
    return .yes
  | t :: ts => do
    match ← running (ctx.next feed) with
    | none => return .yes
    | some (w, rest) =>
      (judge w t (path.into (.element i))).andThen (ctx.judgeElements judge path (i + 1) rest ts)

def judgeTuple (ctx : Context) (judge : Judge) (ts : List TypeExpr) (v : Value) (path : Path) :
    Judging Verdict := do
  let reject (reason : Reason) := mismatch v (.tuple ts) path reason
  if !ctx.isInstanceOfAny v [.builtin "tuple", .builtin "list"] then return .no (reject .notTuple)
  if (← running (ctx.size v)) != ts.length then
    return .no (reject (.wrongLength ts.length (← running (ctx.size v))))
  let feed ← running (ctx.feed v)
  ctx.judgeElements judge path 0 feed ts

/-- Judges the declared fields of a record in order. -/
def judgeFields (ctx : Context) (judge : Judge) (v : Value) (path : Path) (reject : Reason → Mismatch) :
    List (Field TypeExpr) → Judging Verdict
  | [] => return .yes
  | f :: fs => do
    let key := Value.ofKey f.key
    if ← running (ctx.program.contains ctx.program.invoke v key) then
      let w ← running (ctx.item v key)
      (judge w f.type (path.into (.valueAt key.written))).andThen (ctx.judgeFields judge v path reject fs)
    else if f.required then return .no (reject (.missingKey f.key))
    else ctx.judgeFields judge v path reject fs

def isDeclared (ctx : Context) (fields : List (Field TypeExpr)) (key : Value) : Run Bool := do
  return (← ctx.program.place? ctx.program.invoke (fields.map fun f => Value.ofKey f.key) key).isSome

/-- Judges the keys of a record that no field declares, in the order of the keys. -/
def judgeOthers (ctx : Context) (judge : Judge) (fields : List (Field TypeExpr)) (extra : Option TypeExpr)
    (v : Value) (path : Path) (reject : Reason → Mismatch) : (fuel : Nat) → Feed → Judging Verdict
  | 0, _ => demand (.error (.raised ⟨.builtin "MemoryError", []⟩))
  | fuel + 1, feed => do
    match ← running (ctx.next feed) with
    | none => return .yes
    | some (key, rest) =>
      let others := ctx.judgeOthers judge fields extra v path reject fuel rest
      if ← running (ctx.isDeclared fields key) then others else
      match extra with
      | none => return .no (reject (.unexpectedKey (← running (ctx.shown key))))
      | some t =>
        let w ← running (ctx.item v key)
        let shown ← running (ctx.shown key)
        (judge w t (path.into (.valueAt shown))).andThen others

/-- Judges against a record type: the declared fields first, then the keys that no field declares. -/
def judgeRecord (ctx : Context) (judge : Judge) (fields : List (Field TypeExpr))
    (extra : Option TypeExpr) (v : Value) (path : Path) : Judging Verdict := do
  let reject (reason : Reason) := mismatch v (.record fields extra) path reason
  if !ctx.isContainer v "Mapping" then return .no (reject .notMapping)
  (ctx.judgeFields judge v path reject fields).andThen do
    let feed ← running (ctx.feed v)
    ctx.judgeOthers judge fields extra v path reject (feed.bound ctx.program.feedLimit (← get).world) feed

def judgeEntries (ctx : Context) (judge : Judge) (first second : TypeExpr) (v : Value) (path : Path) :
    Judging Verdict := do
  let keys ← running (ctx.program.keysOf ctx.program.invoke v)
  ctx.sampled keys fun _ key => do
    let shown ← running (ctx.shown key)
    (judge key first (path.into (.key shown))).andThen do
      let w ← running (ctx.item v key)
      let shown ← running (ctx.shown key)
      judge w second (path.into (.valueAt shown))

/-- Judges the members of a value against type arguments: keys and values of a mapping, the bounds of a
range, the elements of other collections.  Text is atomic, and one-shot iterators are left alone, for
looking would use them up. -/
def judgeMembers (ctx : Context) (judge : Judge) (first : TypeExpr) (others : List TypeExpr) (v : Value)
    (path : Path) : Judging Verdict := do
  match ctx.isContainer v "Mapping", others.head? with
  | true, some second => ctx.judgeEntries judge first second v path
  | _, _ =>
    match v.core with
    | .range start stop _ =>
      allOf [judge (.int start) first (path.into .start), judge (.int stop) first (path.into .stop)]
    | .str _ | .bytes .bytes _ | .bytes .bytearray _ => return .yes
    | _ =>
      if ctx.isContainer v "Iterable" && !ctx.isContainer v "Iterator" then
        ctx.sampled v fun i w => judge w first (path.into (.element i))
      else
        ctx.note .debug .classifier
          (return s!"Element types of {path.text} ({v.typeName}) are not checked")
        return .yes

def judgeClassRef (ctx : Context) (judge : Judge) (name : String) (args : List TypeExpr) (v : Value)
    (path : Path) : Judging Verdict := do
  if ctx.registry.isAlias name then
    happen (.expanded name)
    judge v (← demand (ctx.registry.expansionOf name)) path
  else
    let reject (reason : Reason) := mismatch v (.classRef name args) path reason
    match ← ctx.target name with
    | .ofModule home => decide (v.equal (.moduleObject home)) (reject (.notModule home))
    | .ofClass c =>
      if !ctx.isInstance v c then return .no (reject (.notInstance c)) else
      match args with
      | [] => return .yes
      | first :: others => ctx.judgeMembers judge first others v path

/-! ## The whole judgement -/

/-- Judges a value by the kind of the type; `judge` is for its parts. -/
def judgeWith (ctx : Context) (judge : Judge) : Judge := fun v t path =>
  match t with
  | .untyped => return .yes
  | .base kind => ctx.judgeBase kind v path
  | .classRef name args => ctx.judgeClassRef judge name args v path
  | .singleton name => ctx.judgeSingleton name v path
  | .interface name methods => ctx.judgeInterface name methods v path
  | .union ts => judgeUnion judge ts v path
  | .intersection ts => judgeIntersection judge ts v path
  | .tuple ts => ctx.judgeTuple judge ts v path
  | .record fields extra => ctx.judgeRecord judge fields extra v path
  | .literal l => decide (isLiteral v l) (mismatch v t path (.notLiteral l))
  | .typeVar name => ctx.judgeTypeVar name v path
  | .optional inner => if v.isNull then return .yes else judge v inner path
  | .proc params _ _ => ctx.judgeProc t params v path

/-- Judges a value as it stands now, unless it is a double, which satisfies everything. -/
def judgeUnlessDouble (ctx : Context) (judge : Judge) : Judge := fun v t path => do
  let v ← resolve v
  if ← demand (ctx.isAmong v ctx.doubles) then
    ctx.note .info .classifier (do
      let shown ← ctx.shown v
      return s!"A double ({shown}) is detected!")
    return .yes
  ctx.judgeWith judge v t path

/-- Judges a value against a type, at most `fuel` levels deep. -/
def judge (ctx : Context) : (fuel : Nat) → Judge
  | 0 => fun _ _ _ => demand (.error .tooDeep)
  | fuel + 1 => ctx.judgeUnlessDouble (ctx.judge fuel)

def satisfies (ctx : Context) (v : Value) (t : TypeExpr) (slot : String) : Judging Verdict :=
  ctx.judge ctx.program.depthLimit v t ⟨slot, []⟩

end Context

/-! ## Effects of a judgement on the registry -/

/-- What is left of the events of a judgement, given in order, once the registry has taken note of the
names looked up: the registry, and the records logged. -/
def Registry.replay (r : Registry) : List Event → Registry × List LogRecord
  | [] => (r, [])
  | .resolved name :: rest =>
    let (_, r, log) := r.resolveClass name
    let (r, more) := r.replay rest
    (r, log ++ more)
  | .expanded name :: rest => (r.expandAlias name).2.replay rest
  | .noted record :: rest =>
    let (r, more) := r.replay rest
    (r, record :: more)

end Conformance
