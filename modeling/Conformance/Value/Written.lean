import Conformance.Double.Shortest
import Conformance.Text.Digit
import Conformance.Text.Quoted
import Conformance.Value

/-!
# Written forms of values

`written?` is how a value is shown inside messages: text quoted, collections bracketed.  Objects that
have no lasting written form (they would be shown by their address) have none, and neither has any
collection that holds one.  `textWith` is how a value reads as text.

Instances may choose their own form, and an integer may have too many digits to be written.  `writtenBy` and
`textBy` ask for the forms of both (`Writer`) as they come to them, in whatever monad the answer is computed.
-/

namespace Conformance

/-- A number with at least this many digits. -/
def paddedNumber (width n : Nat) : String :=
  let digits := (toString n).toList
  String.ofList (List.replicate (width - digits.length) '0' ++ digits)

namespace Value

/-- A complex number: a zero real part is left out, unless it is negative. -/
def writtenComplex (re im : Double) : String :=
  let imaginary := im.renderWith []
  if re == .finite false 0 Double.minExponent then imaginary ++ "j" else
  let sign := if imaginary.startsWith "-" then "" else "+"
  "(" ++ re.renderWith [] ++ sign ++ imaginary ++ "j)"

/-- A collection from the written forms of its elements. -/
def writtenSequence (kind : SequenceKind) (items : List String) : String :=
  let inside := ", ".intercalate items
  match kind with
  | .list => "[" ++ inside ++ "]"
  | .tuple => if items.length == 1 then "(" ++ inside ++ ",)" else "(" ++ inside ++ ")"
  | .set => if items.isEmpty then "set()" else "\x7b" ++ inside ++ "\x7d"
  | .frozenset => if items.isEmpty then "frozenset()" else "frozenset(\x7b" ++ inside ++ "\x7d)"
  | .deque => "deque([" ++ inside ++ "])"
  | .toArray => "ToArray(" ++ inside ++ ")"
  | .keys => "dict_keys([" ++ inside ++ "])"
  | .orderedKeys => "odict_keys([" ++ inside ++ "])"
  | .enumeration => "WithEnum([" ++ inside ++ "])"

def writtenMapping (kind : MappingKind) (entries : List (String × String)) : String :=
  let plain := "\x7b" ++ ", ".intercalate (entries.map fun e => e.1 ++ ": " ++ e.2) ++ "\x7d"
  match kind with
  | .dict => plain
  | .mappingProxy => "mappingproxy(" ++ plain ++ ")"
  | .toHash => "ToHash(" ++ plain ++ ")"
  | .orderedDict =>
    if entries.isEmpty then "OrderedDict()" else
    "OrderedDict([" ++ ", ".intercalate (entries.map fun e => "(" ++ e.1 ++ ", " ++ e.2 ++ ")") ++ "])"

/-- The integers that a range is written with. -/
def rangeNumbers (start stop step : Int) : List Int := [start, stop] ++ if step == 1 then [] else [step]

/-- A moment: the time of day always has hours and minutes, and the rest where it is not zero. -/
def writtenDatetime (fields : List Nat) : String :=
  let part (i : Nat) := fields.getD i 0
  let seconds := if part 6 != 0 then [part 5, part 6] else if part 5 != 0 then [part 5] else []
  let shown := (List.range 5).map part ++ seconds
  "datetime.datetime(" ++ ", ".intercalate (shown.map toString) ++ ")"

/-- A module; those that are part of the system say so. -/
def writtenModule (name : String) : String :=
  "<module '" ++ name ++ (if ["builtins", "math"].contains name then "' (built-in)>" else "'>")

/-- The written form `shown` of a native value, for an instance of a class called `name` that is derived
from its class. -/
def derivedForm (name : String) (v : Value) (shown : String) : String :=
  let renamed := name ++ (shown.drop v.classOf.name.length).toString
  match v with
  | error _ _ | bytes .bytearray _ | sequence .deque _ | sequence .frozenset _ | mapping .orderedDict _ =>
    renamed
  | sequence .set items => if items.isEmpty then renamed else name ++ "(" ++ shown ++ ")"
  | _ => shown

/-- The forms that a value is written with. -/
structure Writer (m : Type → Type) where
  /-- The digits of an integer. -/
  number : Int → m String
  /-- The form that an instance chooses for itself. -/
  own : Value → m (Option String)

section Forms

variable {m : Type → Type} [Monad m]

mutual

/-- How a value is shown inside messages. -/
def writtenBy (writer : Writer m) : Value → m (Option String)
  | null => return some "None"
  | bool b => return some (if b then "True" else "False")
  | int n => do return some (← writer.number n)
  | float x => return some x.render
  | complex re im => return some (writtenComplex re im)
  | fraction num den => do return some s!"Fraction({← writer.number num}, {← writer.number den})"
  | decimal x => return some ("Decimal('" ++ x.render ++ "')")
  | str s => return some (Text.quoted s)
  | bytes .bytes data => return some (Text.quotedBytes data)
  | bytes .bytearray data => return some ("bytearray(" ++ Text.quotedByteArray data ++ ")")
  | sequence kind items => do return (← writtenAllBy writer items).map (writtenSequence kind)
  | mapping kind entries => do return (← writtenEntriesBy writer entries).map (writtenMapping kind)
  | range start stop step => do
    return some ("range(" ++ ", ".intercalate (← (rangeNumbers start stop step).mapM writer.number) ++ ")")
  | blank .blankSlate => return some "<BlankSlate>"
  | standIn kind v => do return (← v.writtenBy writer).map fun s => kind.name ++ "(" ++ s ++ ")"
  | classObject c => return some c.written
  | builtin name => return some ("<built-in function " ++ name ++ ">")
  | block v => do return (← v.writtenBy writer).map fun s => "Block(" ++ s ++ ")"
  | error c args => do
    match ← writer.own (error c args) with
    | some s => return some s
    | none => return (← writtenAllBy writer args).map fun as => c.name ++ "(" ++ ", ".intercalate as ++ ")"
  | date y m d => return some s!"datetime.date({y}, {m}, {d})"
  | datetime fields => return some (writtenDatetime fields)
  | path p => return some ("PurePosixPath(" ++ Text.quoted p ++ ")")
  | pattern p => return some ("re.compile(" ++ Text.quoted p ++ ")")
  | moduleObject name => return some (writtenModule name)
  | object c (some v) attributes => do
    match ← writer.own (object c (some v) attributes) with
    | some s => return some s
    | none => return (← v.writtenBy writer).map (derivedForm c.name v)
  | object c none attributes => writer.own (object c none attributes)
  | _ => return none

def writtenAllBy (writer : Writer m) : List Value → m (Option (List String))
  | [] => return some []
  | v :: vs => do
    let first ← v.writtenBy writer
    let rest ← writtenAllBy writer vs
    return first.bind fun s => rest.map (s :: ·)

def writtenEntriesBy (writer : Writer m) : List (Value × Value) → m (Option (List (String × String)))
  | [] => return some []
  | (k, v) :: es => do
    let key ← k.writtenBy writer
    let value ← v.writtenBy writer
    let rest ← writtenEntriesBy writer es
    return key.bind fun a => value.bind fun b => rest.map ((a, b) :: ·)

end

def writtenOr (v : Value) (shown : Option String) : String := shown.getD ("<" ++ v.typeName ++ " object>")

end Forms

/-- Writes integers of any size, and instances as their classes do. -/
def plainWriter : Writer Id := ⟨fun n => return toString n, fun _ => return none⟩

/-- How a value is shown inside messages, where nothing is known of any program. -/
def written? (v : Value) : Option String := Id.run (v.writtenBy plainWriter)

/-- How a value is shown; one without a lasting written form is shown by its class. -/
def written (v : Value) : String := v.writtenOr v.written?

def datetimeText : List Nat → String
  | y :: m :: d :: rest =>
    let part (i : Nat) := paddedNumber 2 (rest.getD i 0)
    paddedNumber 4 y ++ "-" ++ paddedNumber 2 m ++ "-" ++ paddedNumber 2 d ++ " "
      ++ part 0 ++ ":" ++ part 1 ++ ":" ++ part 2
      ++ (if rest.getD 3 0 == 0 then "" else "." ++ paddedNumber 6 (rest.getD 3 0))
  | _ => ""

/-- The ways in which the text of an error is made of its arguments. -/
inductive ErrorStyle where
  /-- Nothing, the text of the only argument, or all arguments as a tuple. -/
  | plain
  /-- Of a failed lookup: the only argument is shown as in messages. -/
  | lookup
  /-- Of the system: a number, a text, and the file that they are about. -/
  | system
  deriving DecidableEq, Repr, Inhabited

/-- How a value reads as text, where `ownText` is the text that an instance chooses for itself, and `style`
tells how the text of an error is made. -/
def textBy {m : Type → Type} [Monad m] (style : ClassId → ErrorStyle) (writer : Writer m)
    (ownText : Value → m (Option String)) : Value → m String
  | str s => return s
  | error c [] => do return (← ownText (error c [])).getD ""
  | error c [a] => do
    match ← ownText (error c [a]), style c with
    | some s, _ => return s
    | none, .lookup => return a.writtenOr (← a.writtenBy writer)
    | none, _ => a.textBy style writer ownText
  | error c (number :: text :: rest) => do
    match ← ownText (error c (number :: text :: rest)), style c with
    | some s, _ => return s
    | none, .system =>
      let head := s!"[Errno {← number.textBy style writer ownText}] {← text.textBy style writer ownText}"
      match rest with
      | [] | null :: _ => return head
      | file :: _ => return head ++ ": " ++ file.writtenOr (← file.writtenBy writer)
    | none, _ =>
      let all := sequence .tuple (number :: text :: rest)
      return all.writtenOr (← all.writtenBy writer)
  | standIn .toStr v => do
    match ← ownText (standIn .toStr v) with
    | some s => return s
    | none => v.textBy style writer ownText
  | decimal x => return x.render
  | fraction num den => do
    let whole ← writer.number num
    if den == 1 then return whole else return whole ++ "/" ++ (← writer.number den)
  | date y m d => return paddedNumber 4 y ++ "-" ++ paddedNumber 2 m ++ "-" ++ paddedNumber 2 d
  | datetime fields => return datetimeText fields
  | path p => return p
  | mapping .mappingProxy entries => do
    return (mapping .dict entries).writtenOr (← (mapping .dict entries).writtenBy writer)
  | object c (some v) attributes => do
    match ← ownText (object c (some v) attributes) with
    | some s => return s
    | none => v.textBy style writer ownText
  | object c none attributes => do
    match ← ownText (object c none attributes) with
    | some s => return s
    | none => return (object c none attributes).writtenOr (← writer.own (object c none attributes))
  | v => do return v.writtenOr (← v.writtenBy writer)

/-- How a value reads as text when no instance chooses its own. -/
def textWith (style : ClassId → ErrorStyle) (v : Value) : String :=
  Id.run (v.textBy style plainWriter fun _ => return none)

/-- How a value reads as text when nothing is known of any program. -/
def text (v : Value) : String := v.textWith fun c => if c == .builtin "KeyError" then .lookup else .plain

end Value

end Conformance
