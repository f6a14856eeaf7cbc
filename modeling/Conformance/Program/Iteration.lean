import Conformance.Program.Native

/-!
# Iteration

Going through the elements of a value one at a time.  `Program.feed` finds out where the elements come
from, and `Program.next` takes one and leaves the feed for the others, so that no element is taken before
it is needed: a one-shot iterator that two iterations share gives each of its elements to one of them.

A scripted iterator ends by an error of its own kind, which `next` takes for the end.  It need not end at
all, so going through all the rest takes fuel, and running out of it is an error of the program.
-/

namespace Conformance

/-- A way to call something with positional and keyword arguments. -/
abbrev Caller := Attribute → List Value → List (String × Value) → Run Value

/-- Where an iteration takes its elements from. -/
inductive Feed where
  /-- Elements that are already there. -/
  | known (items : List Value)
  /-- A list that others may change, from a position on. -/
  | places (v : Value) (index : Nat)
  /-- A one-shot iterator or stream, which moves on as it gives its elements. -/
  | spending (v : Value)
  /-- An object that has a method for its next element. -/
  | asking (v : Value)
  /-- An object that gives elements by their number, from a number on. -/
  | counting (v : Value) (index : Nat)
  deriving Inhabited

namespace Feed

/-- More steps than the feed can take, or `limit` if its end is not known. -/
def bound (limit : Nat) (w : World) : Feed → Nat
  | known items => items.length + 1
  | spending v =>
    match w.resolve v with
    | .iterator _ rest => rest.length + 1
    | .stream text _ => text.length + 1
    | _ => 1
  | _ => limit

end Feed

namespace Program

/-- The special method that a value's class has under a name, bound to the value. -/
def special? (p : Program) (v : Value) (name : String) : Run (Option Attribute) := do
  return (p.classAttribute? ((← get).resolve v) name).map (·.withReceiver v)

/-- What an error means for the iteration that meets it: the end, if it is of one of the classes. -/
def endingOn {α : Type} (p : Program) (classes : List String) (run : Run α) : Run (Option α) :=
  tryCatch (some <$> run) fun r =>
    if classes.any fun c => p.isSubclass r.error (.builtin c) then return none else throw r

def next (p : Program) (call : Caller) : Feed → Run (Option (Value × Feed))
  | .known [] => return none
  | .known (v :: vs) => return some (v, .known vs)
  | .places v i => do
    match ((← get).resolve v).core with
    | .sequence _ items => return (items[i]?).map fun w => (w, .places v (i + 1))
    | _ => return none
  | .spending v => do
    match (← get).resolve v with
    | .iterator kind (w :: rest) =>
      modify (·.update v fun _ => .iterator kind rest)
      return some (w, .spending v)
    | .stream text position =>
      match Value.nextLine? text position with
      | none => return none
      | some (line, after) =>
        modify (·.update v fun _ => .stream text after)
        return some (.str line, .spending v)
    | _ => return none
  | .asking v => do
    let method ← p.special? v "__next__"
    let item ← p.endingOn ["StopIteration"] (call (method.getD (.value .null)) [] [])
    return item.map fun w => (w, .asking v)
  | .counting v i => do
    let method ← p.special? v "__getitem__"
    let item ← p.endingOn ["IndexError", "StopIteration"]
      (call (method.getD (.value .null)) [.int i] [])
    return item.map fun w => (w, .counting v (i + 1))

/-- The complaint about a value that has no elements. -/
def notIterable {α : Type} (v : Value) : Run α := typeError s!"'{v.kindName}' object is not iterable"

def nativeFeed (v : Value) : Run Feed := do
  let w := (← get).resolve v
  match v, w, w.core with
  | _, .iterator _ _, _ | _, .stream _ _, _ => return .spending v
  | .cell _, _, .sequence .list _ => return .places v 0
  | _, w, inner =>
    match inner.items? with
    | some items => return .known items
    | none => notIterable w

/-- The elements of what a scripted method gave as an iterator. -/
def iteratorFeed (p : Program) (v : Value) : Run Feed := do
  let w := (← get).resolve v
  match w with
  | .iterator _ _ | .stream _ _ => return .spending v
  | w =>
    match ← p.special? v "__next__" with
    | some _ => return .asking v
    | none => typeError s!"iter() returned non-iterator of type '{w.kindName}'"

/-- Begins an iteration.  What has no iterator of its own is asked for its elements by number. -/
def feed (p : Program) (call : Caller) (v : Value) : Run Feed := do
  match ← p.special? v "__iter__" with
  | some (.native _ _ _) => nativeFeed v
  | some (.value .null) => notIterable ((← get).resolve v)
  | some scripted => do p.iteratorFeed (← call scripted [] [])
  | none =>
    match ← p.special? v "__getitem__" with
    | some _ => return .counting v 0
    | none => notIterable ((← get).resolve v)

/-- All the elements that a feed still gives. -/
def drain (p : Program) (call : Caller) : (fuel : Nat) → Feed → Run (List Value)
  | 0, _ => throw ⟨.builtin "MemoryError", []⟩
  | fuel + 1, feed => do
    match ← p.next call feed with
    | none => return []
    | some (v, rest) => return v :: (← p.drain call fuel rest)

def elements (p : Program) (call : Caller) (v : Value) : Run (List Value) := do
  let feed ← p.feed call v
  p.drain call (feed.bound p.feedLimit (← get)) feed

/-- Passes on each element as it is taken, with what has been made of those before it. -/
def foldFeed {β : Type} (p : Program) (call : Caller) (f : β → Value → Run β) :
    (fuel : Nat) → β → Feed → Run β
  | 0, _, _ => throw ⟨.builtin "MemoryError", []⟩
  | fuel + 1, soFar, feed => do
    match ← p.next call feed with
    | none => return soFar
    | some (v, rest) => do p.foldFeed call f fuel (← f soFar v) rest

/-- Passes on each element of a value as it is taken, with what has been made of those before it. -/
def foldElements {β : Type} (p : Program) (call : Caller) (f : β → Value → Run β) (start : β) (v : Value) :
    Run β := do
  let feed ← p.feed call v
  p.foldFeed call f (feed.bound p.feedLimit (← get)) start feed

/-- Calls a function with each element as it is taken. -/
def mapFeed (p : Program) (call : Caller) (f : Value) : (fuel : Nat) → Feed → Run (List Value)
  | 0, _ => throw ⟨.builtin "MemoryError", []⟩
  | fuel + 1, feed => do
    match ← p.next call feed with
    | none => return []
    | some (v, rest) =>
      let r ← call (.value f) [v] []
      return r :: (← p.mapFeed call f fuel rest)

end Program

end Conformance
