import Conformance.Program.Run
import Conformance.Value.Normal

/-!
# Representative arguments

A generator describes a finite sequence of arguments to try a method with: most give a plain value
first and then a stand-in that converts to it.  A generator can be gone through again; only the
one-shot iterators that were chained to it are empty by then.
-/

namespace Conformance

/-- A description of a sequence of arguments.  What stands where a generator may also be a plain
argument (`argument`). -/
inductive Generator where
  | argument (v : Value)
  /-- The arguments themselves. -/
  | values (args : List Generator)
  /-- A value, and a stand-in for it. -/
  | standing (kind : StandInKind) (arg : Generator)
  /-- The arguments as a list, and as a stand-in for one. -/
  | array (elements : List Generator)
  /-- A mapping of these entries, and a stand-in for it. -/
  | hash (entries : List (Value × Value))
  /-- The text of a path, the path, and a stand-in for it. -/
  | path (arg : Generator)
  /-- The truth values. -/
  | booleans
  /-- Values that are true or false in a condition. -/
  | conditions
  /-- A sequence and further arguments, generators among them spelled out. -/
  | append (first : Generator) (args : List Generator)
  /-- A sequence without the instances of some classes and without some values. -/
  | without (first : Generator) (cases : List Generator)
  /-- Sequences one after the other. -/
  | chain (first : Generator) (others : List Generator)
  /-- All tuples of elements of sequences. -/
  | product (first : Generator) (others : List Generator)
  /-- Ranges over all bounds, with all steps. -/
  | ranges (start stop : Generator) (step : Option Generator)
  deriving Inhabited

namespace Generator

/-- All ways to choose one element of each list, the last varying fastest. -/
def choices {α : Type} : List (List α) → List (List α)
  | [] => [[]]
  | xs :: rest => xs.flatMap fun x => (choices rest).map (x :: ·)

/-- Is the value an instance of a class, or equal to a value of its own class? -/
def isCase (p : Program) (v case : Value) : Run Bool := do
  let w ← get
  match w.resolve case with
  | .classObject c => return p.isInstance (w.resolve v) c
  | other => if (w.resolve v).classOf == other.classOf then p.isEqual p.invoke v case else return false

/-- What a stand-in stands for when nothing is said; a stream is a new one. -/
def usual : StandInKind → Expr
  | .toIO => .stream ""
  | kind => .value (Program.usual kind)

/-- Arguments with a stand-in of this kind among them. -/
def standingIn (p : Program) (kind : StandInKind) (arg : Option Generator) : Run Generator := do
  let arg ← match arg with
    | some g => pure g
    | none => argument <$> p.make (usual kind)
  return match kind with
  | .toPath => path arg
  | kind => standing kind arg

/-- A bound of a range has to be a generator. -/
def generated (name : String) : Generator → Run Unit
  | argument _ => Program.typeError s!"`{name}` must come from a with_* generator"
  | _ => return ()

def generatedStep : Option Generator → Run Unit
  | none => return ()
  | some (argument v) => do
    if ((← get).resolve v).isNull then return () else generated "step" (argument v)
  | some _ => return ()

def conditionValues : List Value :=
  [.bool true, .bool false, .null, .int 1, .blank .object, .blank .blankSlate, .str "hello, world!"]

mutual

/-- The elements of a generator, in order.  A plain argument gives its own elements. -/
def items (p : Program) : Generator → Run (List Value)
  | argument v => p.elements p.invoke v
  | values args => asValues p args
  | standing kind arg => do
    let v ← arg.asValue p
    return [v, ← Program.made (.standIn kind v)]
  | array elements => do
    let vs ← asValues p elements
    return [.sequence .list vs, ← Program.made (.sequence .toArray vs)]
  | hash entries =>
    return [.mapping .dict entries, ← Program.made (.mapping .toHash entries)]
  | path arg => do
    let v ← arg.asValue p
    return [v, ← p.pathFrom p.invoke [v], ← Program.made (.standIn .toPath v)]
  | booleans => return [.bool true, .bool false]
  | conditions => conditionValues.mapM Program.made
  | append first args => do
    let vs ← first.items p
    return vs ++ (← spelledOut p args)
  | without first cases => do
    let vs ← first.items p
    let excluded ← asValues p cases
    vs.filterM fun v => return !(← excluded.anyM (isCase p v))
  | chain first others => do
    let vs ← first.items p
    return vs ++ (← itemLists p others).flatten
  | product first others => do
    let vs ← first.items p
    return (choices (vs :: (← itemLists p others))).map (.sequence .tuple)
  | ranges start stop step => do
    generated "start" start
    generated "stop" stop
    generatedStep step
    let lower ← start.items p
    let upper ← stop.items p
    let strides ← stepItems p step
    (choices [lower, upper, strides]).mapM fun
      | [a, b, c] => do p.rangeOf p.invoke (if ((← get).resolve c).isNull then [a, b] else [a, b, c])
      | _ => return .null

/-- The steps of ranges: none is the same as no step at all. -/
def stepItems (p : Program) : Option Generator → Run (List Value)
  | none => return [.null]
  | some (argument _) => return [.null]
  | some step => step.items p

/-- A generator as a value: a plain argument stands for itself. -/
def asValue (p : Program) : Generator → Run Value
  | argument v => return v
  | g => do Program.made (.sequence .enumeration (← g.items p))

def asValues (p : Program) : List Generator → Run (List Value)
  | [] => return []
  | g :: gs => do
    let v ← g.asValue p
    return v :: (← asValues p gs)

/-- Plain arguments as they are, and the elements of generators. -/
def spelledOut (p : Program) : List Generator → Run (List Value)
  | [] => return []
  | argument v :: gs => do return v :: (← spelledOut p gs)
  | g :: gs => do
    let vs ← g.items p
    return vs ++ (← spelledOut p gs)

/-- The elements of each of several generators. -/
def itemLists (p : Program) : List Generator → Run (List (List Value))
  | [] => return []
  | g :: gs => do
    let vs ← g.items p
    return vs :: (← itemLists p gs)

end

/-- The mappings made of an argument, which is gone through once; nothing makes an empty one. -/
def hashOf (p : Program) (arg : Generator) : Run Generator := do
  let v ← arg.asValue p
  match ← if ← p.isTrue p.invoke v then p.mappingFrom p.invoke .dict [v] [] else pure .null with
  | .mapping _ entries => return hash entries
  | _ => return hash []

end Generator

end Conformance
