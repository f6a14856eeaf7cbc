import Conformance.Program.Comparison

/-!
# Items

What a value has at a key, and whether it has the key.
-/

namespace Conformance

namespace Program

/-- The complaint about a position that a sequence does not have. -/
def outOfRange {α : Type} (v : Value) : Run α :=
  throw (.builtin "IndexError" (match v with
    | .sequence kind _ => kind.classId.name ++ " index out of range"
    | .str _ => "string index out of range"
    | .bytes .bytes _ => "index out of range"
    | .bytes .bytearray _ => "bytearray index out of range"
    | .range _ _ _ => "range object index out of range"
    | _ => "index out of bounds on dimension 1"))

/-- The element of a native sequence at a position; a negative one counts from the end. -/
def itemAt (v : Value) (i : Int) : Run Value :=
  let size := nativeSize v
  let i := if i < 0 then i + size else i
  if i < 0 || (size : Int) ≤ i then outOfRange v else
  match v with
  | .range start _ step => return .int (start + step * i)
  | v => return ((v.items?.getD [])[i.toNat]?).getD .null

/-- The complaint about something that cannot be a position in a native sequence. -/
def notAPosition {α : Type} (v key : Value) : Run α :=
  typeError (match v with
    | .str _ => s!"string indices must be integers, not '{key.kindName}'"
    | .bytes .memoryview _ => "memoryview: invalid slice key"
    | .sequence .deque _ => s!"'{key.kindName}' object cannot be interpreted as an integer"
    | .bytes .bytes _ => s!"byte indices must be integers or slices, not {key.kindName}"
    | v => s!"{v.kindName} indices must be integers or slices, not {key.kindName}")

/-- What a native value has at a key.  A declared class may have an answer for keys that are missing. -/
def nativeItem (p : Program) (call : Caller) (v key : Value) : Run Value := do
  match ((← get).resolve v).core with
  | .mapping _ entries =>
    match ← p.lookup? call entries key with
    | some w => return w
    | none =>
      match ← p.special? v "__missing__" with
      | some method => call method [key] []
      | none => throw ⟨.builtin "KeyError", [key]⟩
  | w =>
    match ← p.special? key "__index__" with
    | none => do notAPosition w ((← get).resolve key)
    | some _ =>
      let i ← p.position call key
      if largestSize < i.natAbs && w.kindName != "range" then
        throw (.builtin "IndexError" (doesNotFit ((← get).resolve key)))
      itemAt w i

def item (p : Program) (call : Caller) (v key : Value) : Run Value := do
  match ← p.special? v "__getitem__" with
  | none => do typeError s!"'{Value.kindName ((← get).resolve v)}' object is not subscriptable"
  | some (.native _ _ _) => p.nativeItem call v key
  | some scripted => call scripted [key] []

/-- Is something among the elements that a feed still gives? -/
def isFed (p : Program) (call : Caller) (v : Value) : (fuel : Nat) → Feed → Run Bool
  | 0, _ => throw ⟨.builtin "MemoryError", []⟩
  | fuel + 1, feed => do
    match ← p.next call feed with
    | none => return false
    | some (w, rest) => if ← p.isAlike call w v then return true else p.isFed call v fuel rest

/-- Do characters, or the numbers of bytes, stand together somewhere in others? -/
def holdsRun {α : Type} [BEq α] (part whole : List α) : Bool :=
  (List.range (whole.length + 1)).any fun i => part.isPrefixOf (whole.drop i)

/-- Is a key in a native value?  A text holds its parts, and so do bytes. -/
def nativeContains (p : Program) (call : Caller) (v key : Value) : Run Bool := do
  let world ← get
  let k := world.resolve key
  match (world.resolve v).core, k.core with
  | .mapping _ entries, _ =>
    return (← p.lookup? call entries key).isSome
  | .str s, .str part => return holdsRun part.toList s.toList
  | .str _, _ => typeError s!"'in <string>' requires string as left operand, not {k.kindName}"
  | .bytes _ data, .bytes _ part => return holdsRun part data
  | .bytes _ data, _ =>
    match ← tryCatch (some <$> p.position call key) fun _ => return none with
    | none => typeError s!"a bytes-like object is required, not '{k.kindName}'"
    | some n =>
      if n < 0 || 255 < n then throw (.builtin "ValueError" "byte must be in range(0, 256)")
      return data.contains n.toNat
  | .sequence .set items, .sequence .set _ => return items.any (world.same · key)
  | .sequence .frozenset items, .sequence .set _ => return items.any (world.same · key)
  | .sequence .set items, _ | .sequence .frozenset items, _ => return (← p.place? call items key).isSome
  | w, _ => (w.items?.getD []).anyM fun v => p.isAlike call v key

def contains (p : Program) (call : Caller) (v key : Value) : Run Bool := do
  let w := (← get).resolve v
  match ← p.special? v "__contains__" with
  | some (.value .null) => typeError s!"'{w.kindName}' object is not a container"
  | some (.native _ _ _) => p.nativeContains call v key
  | some scripted => do p.isTrue call (← call scripted [key] [])
  | none =>
    let feed ← p.feed call v
    p.isFed call key (feed.bound p.feedLimit (← get)) feed

end Program

end Conformance
