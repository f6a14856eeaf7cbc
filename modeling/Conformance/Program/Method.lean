import Conformance.Program.Making

/-!
# Native functions and methods

What the functions and methods do that exist before a program declares its own.
-/

namespace Conformance

namespace Program

/-! ## Functions -/

/-- Sorts elements by a key function, which is called once for each, in order. -/
def sortBy (p : Program) (call : Caller) (items : List Value) (keywords : List (String × Value)) :
    Run (List Value) := do
  match keywords.find? fun k => k.1 != "key" && k.1 != "reverse" with
  | some (name, _) => typeError s!"'{name}' is an invalid keyword argument for sort()"
  | none => pure ()
  let descending ← match keywords.lookup "reverse" with
    | some v => do
      let n ← p.position call v
      if 0x7FFFFFFF < n || n < -0x80000000 then
        throw (.builtin "OverflowError" "Python int too large to convert to C int")
      pure (n != 0)
    | none => pure false
  let key := (keywords.lookup "key").getD .null
  let pairs ← items.mapM fun v => do
    if key.isNull then return (v, v)
    return (← call (.value key) [v] [], v)
  let sorted ← Value.sortByKey (p.isLess call) (if descending then pairs.reverse else pairs)
  return ((if descending then sorted.reverse else sorted).map (·.2))

/-- Is a value an instance of a class, or of one of a tuple of classes? -/
def isInstanceOf (p : Program) (v : Value) : Value → Run Bool
  | .classObject c => return p.isInstance v c
  | .sequence .tuple items => anyOf items
  | _ => typeError "isinstance() arg 2 must be a type, a tuple of types, or a union"
where
  /-- Is the value an instance of one of these? -/
  anyOf : List Value → Run Bool
    | [] => return false
    | w :: ws => do if ← p.isInstanceOf v w then return true else anyOf ws

/-- The functions that stand for operators. -/
def operators : List String := ["add", "neg", "floordiv"]

def callBuiltin (p : Program) (call : Caller) (name : String) (args : List Value)
    (keywords : List (String × Value)) : Run Value := do
  if name != "sorted" && !keywords.isEmpty then
    let home := if operators.contains name then "_operator." else ""
    typeError s!"{home}{name}() takes no keyword arguments"
  match name, args with
  | "len", [v] => return .int (← p.size call v)
  | "abs", [v] => p.absolute call v
  | "callable", [v] => return .bool (p.isCallable ((← get).resolve v))
  | "repr", [v] => return .str (← p.shown call v)
  | "isinstance", [v, w] =>
    let world ← get
    return .bool (← p.isInstanceOf (world.resolve v) (world.view w))
  | "sorted", [v] => return .sequence .list (← p.sortBy call (← p.listed call v) keywords)
  | "add", [a, b] => p.sum call a b
  | "floordiv", [a, b] => p.floorQuotient call a b
  | "neg", [a] => p.negate call a
  | "sorted", args => typeError s!"sorted expected 1 argument, got {args.length}"
  | "add", args => typeError s!"add expected 2 arguments, got {args.length}"
  | "floordiv", args => typeError s!"floordiv expected 2 arguments, got {args.length}"
  | "isinstance", args => typeError s!"isinstance expected 2 arguments, got {args.length}"
  | "neg", args => typeError (s!"_operator.neg() takes exactly one argument ({args.length} given)")
  | name, args => typeError (oneArgumentMessage name args.length)

/-! ## Collections and streams -/

/-- The keys of a mapping as a collection of their own. -/
def keysView (kind : MappingKind) (entries : List (Value × Value)) : Value :=
  .sequence (if kind == .orderedDict then .orderedKeys else .keys) (entries.map (·.1))

def iteratorKind : Value → IteratorKind
  | .sequence .tuple _ => .native (.builtin "tuple_iterator")
  | .sequence .set _ | .sequence .frozenset _ => .native (.builtin "set_iterator")
  | .sequence .deque _ => .native ⟨"_collections", "_deque_iterator"⟩
  | .sequence .keys _ | .mapping .dict _ | .mapping .mappingProxy _ => .native (.builtin "dict_keyiterator")
  | .sequence .orderedKeys _ | .mapping .orderedDict _ => .native (.builtin "odict_iterator")
  | .str s => .native (.builtin (if s.toList.all (·.toNat < 128) then "str_ascii_iterator" else "str_iterator"))
  | .bytes .bytes _ => .native (.builtin "bytes_iterator")
  | .bytes .bytearray _ => .native (.builtin "bytearray_iterator")
  | .bytes .memoryview _ => .native (.builtin "memory_iterator")
  | .range _ _ _ => .native (.builtin "range_iterator")
  | _ => .listIterator

def iteratorOver (v : Value) : Run Value := do
  let w := (← get).resolve v
  match w, w.core with
  | _, .iterator _ _ | _, .stream _ _ => return v
  | .object _ _ _, .str s => made (.iterator (.native (.builtin "str_iterator")) ((Value.str s).items?.getD []))
  | _, w => made (.iterator (iteratorKind w) (w.items?.getD []))

/-- The next element of a one-shot iterator. -/
def advance (p : Program) (call : Caller) (v : Value) : Run Value := do
  match ← p.next call (.spending v) with
  | some (w, _) => return w
  | none => throw ⟨.builtin "StopIteration", []⟩

/-- How many characters are to be read: those up to the end, unless a number is given. -/
def readSize? (p : Program) (call : Caller) : List Value → Run (Option Nat)
  | [] => return none
  | [v] => do
    let w := (← get).resolve v
    if w.isNull then return none
    match ← p.special? v "__index__" with
    | none => typeError s!"argument should be integer or None, not '{w.kindName}'"
    | some _ =>
      let n ← p.position call v
      if largestSize < n.natAbs then
        throw (.builtin "OverflowError" (doesNotFit w))
      return if n < 0 then none else some n.toNat
  | args => typeError s!"read expected at most 1 argument, got {args.length}"

def readStream (p : Program) (call : Caller) (v : Value) (text : String) (position : Nat)
    (args : List Value) : Run Value := do
  let rest := text.toList.drop position
  let taken := ((← p.readSize? call args).map fun n => rest.take n).getD rest
  modify (·.update v fun _ => .stream text (position + taken.length))
  return .str (String.ofList taken)

/-- The characters of a text with others written over them from a position on. -/
def overwritten (cs new : List Char) (position : Nat) : List Char :=
  cs.take position ++ new ++ cs.drop (position + new.length)

def writeStream (v : Value) (text : String) (position : Nat) (new : Value) : Run Value := do
  match ((← get).resolve new).core with
  | .str s =>
    let written := String.ofList (overwritten text.toList s.toList position)
    modify (·.update v fun _ => .stream written (position + s.length))
    return .int s.length
  | w => typeError s!"string argument expected, got '{w.kindName}'"

/-! ## Methods -/

def passOn (p : Program) (call : Caller) (v : Value) (name : String) (args : List Value) : Run Value := do
  match ← p.ask call v name with
  | some method => call method args []
  | none =>
    throw (.builtin "AttributeError" (Fault.noAttribute (owner ((← get).resolve v)) name).message)

/-- The parts of a text between separators, at most so many times. -/
def splitBy (p : Program) (call : Caller) (s : String) (separator most : Option Value) : Run Value := do
  let most ← match most with
    | none => pure none
    | some v => do
      let n ← p.position call v
      if largestSize < n.natAbs then throw (.builtin "OverflowError" tooLargeForSize)
      pure (if n < 0 then none else some n.toNat)
  splitText s ((← get).resolve (separator.getD .null)) most

/-- What a native method of a receiver does with arguments of the right number. -/
def nativeMethod (p : Program) (call : Caller) (owner : ClassId) (name : String) (receiver : Value)
    (args : List Value) (keywords : List (String × Value)) : Run Value := do
  let w := ((← get).resolve receiver).core
  match name, w, args with
  | "__index__", .standIn .toInt v, _ | "__float__", .standIn .toF v, _ | "__str__", .standIn .toStr v, _
  | "__bytes__", .standIn .toBytes v, _ | "__fspath__", .standIn .toPath v, _ => return v
  | "read", .standIn .toIO v, args | "write", .standIn .toIO v, args | "fileno", .standIn .toIO v, args =>
    match keywords.find? (·.1 != "data") with
    | some (k, _) => typeError s!"ToIO.{name}() got an unexpected keyword argument '{k}'"
    | none => p.passOn call v name args
  | "read", .stream text position, args =>
    if !keywords.isEmpty then typeError "StringIO.read() takes no keyword arguments"
    p.readStream call receiver text position args
  | "write", .stream text position, [v] => writeStream receiver text position v
  | "fileno", _, _ => throw ⟨⟨"io", "UnsupportedOperation"⟩, [.str "fileno"]⟩
  | "upper", .str s, _ => return .str (Text.upper s)
  | "split", .str s, _ =>
    let arity := Arity.ofMethod owner name
    p.splitBy call s (arity.argument? args keywords 0) (arity.argument? args keywords 1)
  | "append", .sequence _ _, [v] =>
    modify (·.update receiver (appended v))
    return .null
  | "sort", .sequence _ items, [] =>
    let sorted ← p.sortBy call items keywords
    modify (·.update receiver (withItems sorted))
    return .null
  | "sort", _, args =>
    let given := args.length + keywords.length
    if 2 < given then typeError s!"sort() takes at most 2 arguments ({given} given)"
    typeError "sort() takes no positional arguments"
  | "keys", .mapping kind entries, _ => return keysView kind entries
  | "bit_length", w, _ => return .int (bitLength (w.integer?.getD 0).natAbs)
  | "__len__", w, _ => return .int (nativeSize w)
  | "__getitem__", _, [key] => p.nativeItem call receiver key
  | "__contains__", _, [key] => return .bool (← p.nativeContains call receiver key)
  | "__iter__", _, _ => iteratorOver receiver
  | "__reversed__", w, _ => made (.iterator .listIterator (w.items?.getD []).reverse)
  | "__next__", _, _ => p.advance call receiver
  | "__index__", w, _ => return .int (w.integer?.getD 0)
  | "__float__", w, _ => return .float (← nearestDouble (w.number?.getD (.int 0)))
  | "__bytes__", .path t, _ => return .bytes .bytes (t.toUTF8.toList.map UInt8.toNat)
  | "__bytes__", w, _ => return w
  | "__fspath__", .path t, _ => return .str t
  | "__hash__", w, _ => return .int (integerHash (w.integer?.getD 0))
  | "__call__", _, args => call (.value receiver) args keywords
  | "__str__", .error _ args, _ => return .str (← p.textOf call (.error owner args))
  | "__str__", w, _ =>
    if owner != NativeClass.root then return .str (← p.textOf call w)
    match ← p.scripted? receiver "__repr__" with
    | some method => call method [] []
    | none => return .str (← p.shown call receiver)
  | _, w, _ => return .str (← p.shown call w)

/-- Calls a native method of a receiver.  Through a class the method belongs to that class. -/
def callNative (p : Program) (call : Caller) (owner : ClassId) (name : String) (receiver : Value)
    (throughClass : Bool) (args : List Value) (keywords : List (String × Value)) : Run Value := do
  let arity := Arity.ofMethod owner name
  let own := ((← get).resolve receiver).classOf
  let holder := if owner.home == "fractions" && name == "__float__" then ⟨"numbers", "Rational"⟩
    else if throughClass || Arity.isScripted owner then owner else own
  match arity.complaint? (holder.name ++ "." ++ name) name args.length (keywords.map (·.1)) with
  | some complaint => typeError complaint
  | none => p.nativeMethod call owner name receiver (arity.ordered args keywords) keywords

/-- Calls a native method through its class: the receiver is the first argument, and has to be of the
class. -/
def callUnbound (p : Program) (call : Caller) (owner : ClassId) (name : String) (args : List Value)
    (keywords : List (String × Value)) : Run Value := do
  let full := owner.name ++ "." ++ name
  match args, Arity.ofMethod owner name with
  | [], .script _ _ => typeError s!"{full}() missing 1 required positional argument: 'self'"
  | [], .operator _ => typeError s!"descriptor '{name}' of '{owner.complaintName}' object needs an argument"
  | [], _ => typeError s!"unbound method {full}() needs an argument"
  | v :: rest, arity =>
    let w := (← get).resolve v
    match p.isInstance w owner, arity with
    | true, _ | false, .script _ _ => p.callNative call owner name v true rest keywords
    | false, .operator _ =>
      typeError s!"descriptor '{name}' requires a '{owner.complaintName}' object but received a '{w.kindName}'"
    | false, _ =>
      typeError
        s!"descriptor '{name}' for '{owner.complaintName}' objects doesn't apply to a '{w.kindName}' object"

end Program

end Conformance
