import Conformance.Class.Native
import Conformance.Decimal
import Conformance.Formal

/-!
# Values

The objects that are passed, returned and checked.  A value is a finite tree; the objects that a
program can change while others hold them, and those that equal nothing but themselves, are known by the
number of their cell, and a running program's state holds what is in the cells.
-/

namespace Conformance

/-- Rows of bytes. -/
inductive BytesKind where
  | bytes
  | bytearray
  | memoryview
  deriving DecidableEq, Repr, Inhabited

/-- Collections of elements. -/
inductive SequenceKind where
  | list
  | tuple
  | set
  | frozenset
  | deque
  | toArray
  /-- The keys of a mapping, seen as a collection of their own. -/
  | keys
  /-- The keys of a mapping that minds their order. -/
  | orderedKeys
  /-- A finite sequence of representative values that can be gone through again and again. -/
  | enumeration
  deriving DecidableEq, Repr, Inhabited

/-- Collections of keys with values. -/
inductive MappingKind where
  | dict
  | orderedDict
  | mappingProxy
  | toHash
  deriving DecidableEq, Repr, Inhabited

/-- One-shot iterators. -/
inductive IteratorKind where
  | listIterator
  | generator
  /-- An iterator of another native class. -/
  | native (c : ClassId)
  deriving DecidableEq, Repr, Inhabited

/-- Objects with nothing of their own. -/
inductive BlankKind where
  | object
  | blankSlate
  deriving DecidableEq, Repr, Inhabited

/-- Objects that stand in for a value by converting to it. -/
inductive StandInKind where
  | toInt
  | toF
  | toStr
  | toBytes
  | toPath
  | toIO
  deriving DecidableEq, Repr, Inhabited

/-- A value. -/
inductive Value where
  | null
  | bool (b : Bool)
  | int (n : Int)
  | float (x : Double)
  | complex (re im : Double)
  | fraction (num : Int) (den : Nat)
  | decimal (x : Decimal)
  | str (s : String)
  | bytes (kind : BytesKind) (data : List Nat)
  | sequence (kind : SequenceKind) (items : List Value)
  | mapping (kind : MappingKind) (entries : List (Value × Value))
  | range (start stop step : Int)
  | iterator (kind : IteratorKind) (rest : List Value)
  | cell (id : Nat)
  | blank (kind : BlankKind)
  | standIn (kind : StandInKind) (value : Value)
  | stream (text : String) (position : Nat)
  | classObject (c : ClassId)
  | moduleObject (name : String)
  | builtin (name : String)
  | function (formals : List Formal) (code : Nat)
  | block (callable : Value)
  | traced (callable : Value)
  | error (c : ClassId) (args : List Value)
  | date (year month day : Nat)
  | datetime (fields : List Nat)
  | path (text : String)
  | pattern (text : String)
  | object (c : ClassId) (core : Option Value) (attributes : List (String × Value))
  deriving Inhabited

namespace SequenceKind

def classId : SequenceKind → ClassId
  | list => .builtin "list"
  | tuple => .builtin "tuple"
  | set => .builtin "set"
  | frozenset => .builtin "frozenset"
  | deque => ⟨"collections", "deque"⟩
  | toArray => .standIn "ToArray"
  | keys => .builtin "dict_keys"
  | orderedKeys => .builtin "odict_keys"
  | enumeration => ⟨"sigconf.generators", "WithEnum"⟩

end SequenceKind

namespace MappingKind

def classId : MappingKind → ClassId
  | dict => .builtin "dict"
  | orderedDict => ⟨"collections", "OrderedDict"⟩
  | mappingProxy => .builtin "mappingproxy"
  | toHash => .standIn "ToHash"

end MappingKind

namespace BytesKind

def classId : BytesKind → ClassId
  | bytes => .builtin "bytes"
  | bytearray => .builtin "bytearray"
  | memoryview => .builtin "memoryview"

end BytesKind

namespace StandInKind

def name : StandInKind → String
  | toInt => "ToInt"
  | toF => "ToF"
  | toStr => "ToStr"
  | toBytes => "ToBytes"
  | toPath => "ToPath"
  | toIO => "ToIO"

end StandInKind

namespace Value

def metaOf (c : ClassId) : ClassId :=
  if ((NativeClass.find? c).map (·.abstractMeta)).getD false then NativeClass.abstractMetaClass
  else NativeClass.metaClass

def classOf : Value → ClassId
  | null => .builtin "NoneType"
  | bool _ => .builtin "bool"
  | int _ => .builtin "int"
  | float _ => .builtin "float"
  | complex _ _ => .builtin "complex"
  | fraction _ _ => ⟨"fractions", "Fraction"⟩
  | decimal _ => ⟨"decimal", "Decimal"⟩
  | str _ => .builtin "str"
  | bytes kind _ => kind.classId
  | sequence kind _ => kind.classId
  | mapping kind _ => kind.classId
  | range _ _ _ => .builtin "range"
  | iterator .listIterator _ => .builtin "list_iterator"
  | iterator .generator _ => .builtin "generator"
  | iterator (.native c) _ => c
  | cell _ => NativeClass.root
  | blank .object => NativeClass.root
  | blank .blankSlate => .standIn "BlankSlate"
  | standIn kind _ => .standIn kind.name
  | stream _ _ => ⟨"_io", "StringIO"⟩
  | classObject c => metaOf c
  | moduleObject _ => .builtin "module"
  | builtin _ => .builtin "builtin_function_or_method"
  | function _ _ => .builtin "function"
  | block _ => ⟨"sigconf.invocation", "Block"⟩
  | traced _ => ⟨"sigconf.invocation", "TracedBlock"⟩
  | error c _ => c
  | date _ _ _ => ⟨"datetime", "date"⟩
  | datetime _ => ⟨"datetime", "datetime"⟩
  | path _ => ⟨"pathlib", "PurePosixPath"⟩
  | pattern _ => ⟨"re", "Pattern"⟩
  | object c _ _ => c

/-- The native value inside an instance of a class that extends a native one. -/
def core : Value → Value
  | object _ (some v) _ => v
  | v => v

def isNull : Value → Bool
  | null => true
  | _ => false

/-- Is the value told from others like it?  What equals nothing but itself is, and every instance of a declared
class. -/
def isIndividual : Value → Bool
  | float x => x == .nan
  | complex re im => re == .nan || im == .nan
  | decimal x => x.isNaN
  | sequence .toArray _ | sequence .enumeration _ | mapping .toHash _ | iterator _ _ | blank _ | standIn _ _
  | stream _ _ | error _ _ | object _ _ _ => true
  | _ => false

/-- Can a program change the value while others hold it? -/
def isMutable : Value → Bool
  | sequence .list _ | sequence .set _ | sequence .deque _ | mapping .dict _ | mapping .orderedDict _
  | bytes .bytearray _ => true
  | object _ (some v) _ => v.isMutable
  | _ => false

/-- How the value's class appears in messages. -/
def typeName (v : Value) : String := v.classOf.typeName

/-- The elements of a range: as many steps as stay before its stop. -/
def rangeLength (start stop step : Int) : Nat :=
  if 0 < step then ((stop - start + step - 1) / step).toNat
  else if step < 0 then ((start - stop - step - 1) / (-step)).toNat
  else 0

def rangeItems (start stop step : Int) : List Value :=
  (List.range (rangeLength start stop step)).map fun i : Nat => int (start + step * i)

/-- The first line of a text, with its end, and what follows it. -/
def splitLine : List Char → List Char × List Char
  | [] => ([], [])
  | c :: cs =>
    if c == '\n' then ([c], cs) else
    let (line, rest) := splitLine cs
    (c :: line, rest)

/-- The next line of a stream of text, and where the stream is after it; there is none at its end. -/
def nextLine? (text : String) (position : Nat) : Option (String × Nat) :=
  match splitLine (text.toList.drop position) with
  | ([], _) => none
  | (line, _) => some (String.ofList line, position + line.length)

/-- What a native value gives when it is iterated; `none` when it cannot be. -/
def items? : Value → Option (List Value)
  | str s => some (s.toList.map fun c => str (String.singleton c))
  | bytes _ data => some (data.map fun b : Nat => int b)
  | sequence _ items => some items
  | mapping .toHash _ => none
  | mapping _ entries => some (entries.map (·.1))
  | range start stop step => some (rangeItems start stop step)
  | iterator _ rest => some rest
  | _ => none

/-- What the complaints of a program call the value's class. -/
def kindName (v : Value) : String := v.classOf.complaintName

/-- Does the value count as true?  Nothing, zero and what is empty do not. -/
def truth (v : Value) : Bool :=
  match v.core with
  | null => false
  | bool b => b
  | int n => n != 0
  | float x => !x.same (.finite false 0 0)
  | complex re im => !(re.same (.finite false 0 0) && im.same (.finite false 0 0))
  | fraction num _ => num != 0
  | decimal (.finite _ digits _) => digits != 0
  | str s => !s.isEmpty
  | bytes _ data => !data.isEmpty
  | sequence .enumeration _ | mapping .toHash _ => true
  | sequence _ items => !items.isEmpty
  | mapping _ entries => !entries.isEmpty
  | range start stop step => rangeLength start stop step != 0
  | _ => true

def integer? (v : Value) : Option Int :=
  match v.core with
  | int n => some n
  | bool b => some b.toInt
  | _ => none

end Value

end Conformance
