import Conformance.Document.Reader
import Conformance.Ledger.Coverage

/-!
# Ledger reports

A ledger as a document, and reading one back.  The positions of overloads survive: texts that the
report leaves out leave a gap.  What a report lacks is found in a fixed order: its version, its list of
entries, and per entry the three parts of the key, the place of its text, and the two counts.  A report whose
fields are not all texts and counts gives a loose ledger.
-/

namespace Conformance

/-- Why a report gives no ledger. -/
inductive ReportError where
  /-- The text is no document. -/
  | unreadable (text : String) (e : Document.ReadError)
  /-- The document has no fields, because it is of another kind. -/
  | notAnObject (kind : String)
  /-- The report is of another version. -/
  | version (shown : String)
  /-- A field is missing. -/
  | missingField (name : String)
  /-- The entries cannot be gone through. -/
  | notIterable (kind : String)
  /-- An entry has no fields, because it is of another kind. -/
  | entryKind (kind : String)
  /-- A field of this kind cannot be part of a key. -/
  | unhashable (kind : String)
  /-- There is no position after this one. -/
  | noSuccessor (e : Incomputable)
  /-- A position of this kind is not a whole number. -/
  | fractional (kind : String)
  /-- A position counts back past the first text. -/
  | outOfRange
  /-- A position is too far away to be counted to. -/
  | tooFar
  /-- There is no room for the texts up to a position. -/
  | noRoom
  deriving Inhabited

namespace ReportError

def message : ReportError → String
  | unreadable text e => e.message text
  | notAnObject kind => s!"'{kind}' object has no attribute 'get'"
  | version shown => s!"Unsupported coverage report version: {shown}"
  | missingField name => Text.quoted name
  | notIterable kind => s!"'{kind}' object is not iterable"
  | entryKind "str" => "string indices must be integers, not 'str'"
  | entryKind "list" => "list indices must be integers or slices, not str"
  | entryKind kind => s!"'{kind}' object is not subscriptable"
  | unhashable kind => s!"unhashable type: '{kind}'"
  | noSuccessor e => e.message
  | fractional kind => s!"can't multiply sequence by non-int of type '{kind}'"
  | outOfRange => "list assignment index out of range"
  | tooFar => "cannot fit 'int' into an index-sized integer"
  | noRoom => ""

/-- Is the report at fault in a way that is told to the user?  The other errors end the program. -/
def isReported : ReportError → Bool
  | unreadable _ .tooDeep => false
  | unreadable _ _ | version _ | missingField _ => true
  | _ => false

end ReportError

def reportVersion : Int := 1

/-! ## Writing -/

namespace Index

def toDocument : Index → Document
  | number n => .int n
  | truth b => .bool b

end Index

namespace Ledger

def entryDocument (e : LedgerKey × Tally) : Document :=
  .object [("receiver_type", .str e.1.receiver), ("method", .str e.1.method),
    ("signature_index", e.1.index.toDocument), ("signature", .str e.2.signature),
    ("attempted", .int e.2.attempted), ("satisfied", .int e.2.satisfied)]

def entryDocuments (l : Ledger) : List Document := l.sorted.map entryDocument

def toDocument (l : Ledger) : Document :=
  .object [("version", .int reportVersion), ("entries", .list l.entryDocuments)]

def dump (l : Ledger) : String := l.toDocument.render

end Ledger

namespace LooseLedger

def entryDocument (e : LooseKey × LooseTally) : Document :=
  .object [("receiver_type", .ofValue e.1.receiver), ("method", .ofValue e.1.method),
    ("signature_index", .ofValue e.1.index), ("signature", .ofValue e.2.signature),
    ("attempted", .ofValue e.2.attempted), ("satisfied", .ofValue e.2.satisfied)]

def toDocument (l : LooseLedger) : Except LedgerError Document := do
  return .object [("version", .int reportVersion), ("entries", .list ((← l.sorted).map entryDocument))]

/-- The sums over all entries as a document. -/
def Totals.toDocument (t : Totals) : Document :=
  .object [("overloads", .int t.overloads), ("attempted", .ofValue t.attempted),
    ("satisfied", .ofValue t.satisfied), ("unexercised", .int t.unexercised)]

end LooseLedger

namespace Coverage

def toDocument : Coverage → Except LedgerError Document
  | strict l => .ok l.toDocument
  | loose l => l.toDocument

def dump (c : Coverage) : Except LedgerError String := return (← c.toDocument).render

end Coverage

/-! ## Reading -/

/-- What there is room for where reports are read. -/
structure Capacity where
  /-- How many levels of nesting can be read. -/
  depth : Nat := 980
  /-- How many texts can be added to a list at once. -/
  texts : Int := 1000000000
  /-- There is room for one more text. -/
  one_le : 1 ≤ texts := by decide

namespace Ledger

def kindOf (d : Document) : String := d.toValue.kindName

def required (fields : List (String × Document)) (name : String) : Except ReportError Document :=
  (fields.lookup name).elim (.error (.missingField name)) .ok

def farthest : Int := 0x7FFFFFFFFFFFFFFF

/-- Texts with one put at a position, after filling up to it with nothing. -/
def placeText {α : Type} (room : Capacity) (nothing : α) (texts : List α) (position : Int) (text : α) :
    Except ReportError (List α) :=
  let more := position + 1 - texts.length
  if more < -farthest - 1 || farthest < more then .error .tooFar
  else if room.texts < more then .error .noRoom else
  let filled := texts ++ List.replicate more.toNat nothing
  let place := if 0 ≤ position then position else filled.length + position
  if place < 0 then .error .outOfRange else .ok (filled.set place.toNat text)

def loadEntry (room : Capacity) (l : Ledger) (e : LedgerKey × Tally) : Except ReportError Ledger := do
  let l ← if e.2.signature.isEmpty then pure l else do
    let texts ← placeText room none (l.textsOf e.1.receiver e.1.method) e.1.index.toInt (some e.2.signature)
    pure (l.setTexts e.1.receiver e.1.method texts)
  return l.setTally e.1 e.2

/-- The position that a document denotes, if it is one. -/
def index? : Document → Option Index
  | .int n => some (.number n)
  | .bool b => some (.truth b)
  | _ => none

def text? : Document → Option String
  | .str s => some s
  | _ => none

def count? : Document → Option Int
  | .int n => some n
  | _ => none

/-- The entry that a document reports, if its fields are texts and counts.  Its text may be missing. -/
def entry? : Document → Option (LedgerKey × Tally)
  | .object fields => do
    let receiver ← text? (← fields.lookup "receiver_type")
    let method ← text? (← fields.lookup "method")
    let index ← index? (← fields.lookup "signature_index")
    let signature ← text? ((fields.lookup "signature").getD (.str ""))
    let attempted ← count? (← fields.lookup "attempted")
    let satisfied ← count? (← fields.lookup "satisfied")
    return (⟨receiver, method, index⟩, ⟨attempted, satisfied, signature⟩)
  | _ => none

end Ledger

namespace LooseLedger

open Ledger (required kindOf placeText)

/-- Makes sure that values can be part of a key. -/
def requireHashable (vs : List Value) : Except ReportError Unit :=
  match vs.find? fun v => match v with
    | .sequence _ _ | .mapping _ _ => true
    | _ => false with
  | some v => .error (.unhashable v.kindName)
  | none => .ok ()

def positionOf (index : Value) : Except ReportError Int :=
  match index.add (.int 1) with
  | .error e => .error (.noSuccessor e)
  | .ok next =>
    match next.integer? with
    | some n => .ok (n - 1)
    | none => .error (.fractional next.kindName)

def loadFields (room : Capacity) (l : LooseLedger) (fields : List (String × Document)) :
    Except ReportError LooseLedger := do
  let receiver := (← required fields "receiver_type").toValue
  let method := (← required fields "method").toValue
  let index := (← required fields "signature_index").toValue
  let signature := ((fields.lookup "signature").getD (.str "")).toValue
  let l ← if !signature.truth then pure l else do
    requireHashable [receiver, method]
    let texts ← placeText room .null (l.textsOf receiver method) (← positionOf index) signature
    pure (l.setTexts receiver method texts)
  let attempted ← required fields "attempted"
  let satisfied ← required fields "satisfied"
  requireHashable [receiver, method, index]
  return l.setTally ⟨receiver, method, index⟩ ⟨attempted.toValue, satisfied.toValue, signature⟩

def loadEntry (room : Capacity) (l : LooseLedger) : Document → Except ReportError LooseLedger
  | .object fields => l.loadFields room fields
  | d => .error (.entryKind (kindOf d))

end LooseLedger

namespace Coverage

/-- What going through a document gives. -/
def itemsOf : Document → Except ReportError (List Document)
  | .list items => .ok items
  | .object fields => .ok (fields.map fun f => .str f.1)
  | .str s => .ok (s.toList.map fun c => .str (String.singleton c))
  | d => .error (.notIterable (Ledger.kindOf d))

def ofEntries (room : Capacity) (items : List Document) : Except ReportError Coverage :=
  match items.mapM Ledger.entry? with
  | some entries => .strict <$> entries.foldlM (Ledger.loadEntry room) .empty
  | none => .loose <$> items.foldlM (LooseLedger.loadEntry room) {}

def ofDocument (room : Capacity) : Document → Except ReportError Coverage
  | .object fields => do
    let version := ((fields.lookup "version").getD .null).toValue
    if !version.equal (.int reportVersion) then .error (.version version.written) else
    ofEntries room (← itemsOf (← Ledger.required fields "entries"))
  | d => .error (.notAnObject (Ledger.kindOf d))

/-- A text with every kind of line end read as one. -/
def unifyLines : List Char → List Char
  | '\r' :: '\n' :: rest => '\n' :: unifyLines rest
  | '\r' :: rest => '\n' :: unifyLines rest
  | c :: rest => c :: unifyLines rest
  | [] => []

def load (contents : String) (room : Capacity := {}) : Except ReportError Coverage :=
  let text := String.ofList (unifyLines contents.toList)
  match Document.read room.depth text with
  | .error e => .error (.unreadable text e)
  | .ok d => ofDocument room d

end Coverage

end Conformance
