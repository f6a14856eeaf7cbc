import Conformance.Program.Iteration

/-!
# Inquiries into values

What a program finds out about a value besides its elements: its size, whether it is true, how it is
shown, and what it has under a name.  A declared class may answer any of these with a method of its own,
and what that method gives is held to what was asked for.
-/

namespace Conformance

namespace Program

/-! ## Numbers and truth -/

/-- The integer that a value stands for as a size or position. -/
def position (p : Program) (call : Caller) (v : Value) : Run Int := do
  let w := (← get).resolve v
  let checked (r : Value) : Run Int := match r.integer? with
    | some n => return n
    | none => typeError s!"__index__ returned non-int (type {r.kindName})"
  match w.integer?, w with
  | some n, _ => return n
  | none, .standIn .toInt inner => do checked ((← get).resolve inner)
  | none, w =>
    match ← p.special? v "__index__" with
    | none | some (.native _ _ _) =>
      typeError s!"'{w.kindName}' object cannot be interpreted as an integer"
    | some scripted =>
      let r ← call scripted [] []
      checked ((← get).resolve r)

/-- No collection may say that it is larger than this. -/
def largestSize : Int := 9223372036854775807

def nativeSize (v : Value) : Nat :=
  match v.core with
  | .range start stop step => Value.rangeLength start stop step
  | w => (w.items?.getD []).length

/-- The number of elements that a value says it has. -/
def size (p : Program) (call : Caller) (v : Value) : Run Nat := do
  match ← p.special? v "__len__" with
  | none => do typeError s!"object of type '{Value.kindName ((← get).resolve v)}' has no len()"
  | some (.native _ _ _) => return nativeSize ((← get).resolve v)
  | some scripted =>
    let n ← p.position call (← call scripted [] [])
    if n < 0 then throw (.builtin "ValueError" "__len__() should return >= 0")
    if largestSize < n then throw (.builtin "OverflowError" "cannot fit 'int' into an index-sized integer")
    return n.toNat

/-- Does a value count as true?  An object may say so itself, or by its size. -/
def isTrue (p : Program) (call : Caller) (v : Value) : Run Bool := do
  let w := (← get).resolve v
  match ← p.special? v "__bool__", ← p.special? v "__len__" with
  | some method, _ =>
    let r ← call method [] []
    match (← get).resolve r with
    | .bool b => return b
    | r => typeError s!"__bool__ should return bool, returned {r.kindName}"
  | none, some (.native _ _ _) | none, none => return w.truth
  | none, some _ => if w.number?.isSome then return w.truth else return (← p.size call v) != 0

/-- The complaint about a number that is too large to be a size or position. -/
def doesNotFit (v : Value) : String := s!"cannot fit '{v.kindName}' into an index-sized integer"

/-- Asks a value how many elements it will give, before they are taken.  A value that cannot say so is not
complained about. -/
def expectSize (p : Program) (call : Caller) (v : Value) : Run Unit := do
  let silently (run : Run Unit) : Run Unit := tryCatch run fun r =>
    if p.isSubclass r.error (.builtin "TypeError") then return () else throw r
  match ← p.special? v "__len__", ← p.special? v "__length_hint__" with
  | some (.native _ _ _), _ | none, none => return ()
  | some _, _ => silently (discard (p.size call v))
  | none, some method =>
    match ← tryCatch (some <$> call method [] []) fun r =>
      if p.isSubclass r.error (.builtin "TypeError") then return none else throw r with
    | none => return ()
    | some r =>
      match Value.integer? ((← get).resolve r) with
      | none => do typeError s!"__length_hint__ must be an integer, not {Value.kindName ((← get).resolve r)}"
      | some n => if n < 0 then throw (.builtin "ValueError" "__length_hint__() should return >= 0")

/-- The elements of a value, put in a list: it is asked for their number first. -/
def listed (p : Program) (call : Caller) (v : Value) : Run (List Value) := do
  let feed ← p.feed call v
  p.expectSize call v
  p.drain call (feed.bound p.feedLimit (← get)) feed

/-! ## Forms -/

def textFrom (call : Caller) (name : String) (method : Attribute) : Run String := do
  let r ← call method [] []
  match ((← get).resolve r).core with
  | .str s => return s
  | _ => typeError s!"{name} returned non-string (type {Value.kindName ((← get).resolve r)})"

/-- The digits of an integer, unless it has too many of them. -/
def digits (n : Int) : Run String :=
  if Text.isWritable n then return toString n else throw .tooManyDigits

/-- The form that an instance of a declared class chooses for itself. -/
def ownForm? (p : Program) (call : Caller) (v : Value) : Run (Option String) := do
  match p.member? v.classOf "__repr__" with
  | some (.native _) | none => return none
  | _ => some <$> textFrom call "__repr__" ((p.classAttribute? v "__repr__").getD (.value .null))

/-- The text that an instance of a declared class chooses for itself: that of its own method, or the form
that it is shown in if it has no other way to be text.  A stand-in for a text has to hold one. -/
def ownText? (p : Program) (call : Caller) (v : Value) : Run (Option String) := do
  match v, p.member? v.classOf "__str__" with
  | .standIn .toStr w, _ =>
    match w.core with
    | .str s => return some s
    | _ => typeError s!"__str__ returned non-string (type {w.kindName})"
  | _, some (.native owner) =>
    match owner == NativeClass.root, p.member? v.classOf "__repr__" with
    | true, some (.declared _ m) => some <$> textFrom call "__str__" (bindToInstance v m)
    | _, _ => return none
  | _, none => return none
  | _, _ => some <$> textFrom call "__str__" ((p.classAttribute? v "__str__").getD (.value .null))

def writer (p : Program) (call : Caller) : Value.Writer Run := ⟨digits, p.ownForm? call⟩

/-- How a value is shown inside messages, if it has a lasting form. -/
def shown? (p : Program) (call : Caller) (v : Value) : Run (Option String) := do
  ((← get).view v).writtenBy (p.writer call)

def shown (p : Program) (call : Caller) (v : Value) : Run String := do
  return ((← get).view v).writtenOr (← p.shown? call v)

def textOf (p : Program) (call : Caller) (v : Value) : Run String := do
  ((← get).view v).textBy p.errorStyle (p.writer call) (p.ownText? call)

/-! ## Names -/

/-- What a value gives for a name.  A declared class may have an answer for names that are missing. -/
def ask (p : Program) (call : Caller) (v : Value) (name : String) : Run (Option Attribute) := do
  let w := (← get).resolve v
  match p.attribute? w name with
  | some found => return some (found.withReceiver v)
  | none =>
    match p.member? w.classOf "__getattr__" with
    | some (.declared _ m) =>
      return some (.value (← call ((bindToInstance w m).withReceiver v) [.str name] []))
    | _ => return none

/-- Whose attribute is missing, when a value has none of a name. -/
def owner : Value → Owner
  | .classObject c => .classNamed c.complaintName
  | .moduleObject name => .moduleNamed name
  | v => .instanceOf (v.kindName)

/-- The keys of a mapping, by its own method. -/
def keysOf (p : Program) (call : Caller) (v : Value) : Run Value := do
  match ← p.ask call v "keys" with
  | some method => call method [] []
  | none => do
    let fault := Fault.noAttribute (owner ((← get).resolve v)) "keys"
    throw (.builtin "AttributeError" fault.message)

end Program

end Conformance
