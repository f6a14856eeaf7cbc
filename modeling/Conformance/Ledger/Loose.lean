import Conformance.Ledger
import Conformance.Value.Arithmetic
import Conformance.Value.Order
import Conformance.Value.Written

/-!
# Loose ledgers

A report may hold anything where a ledger has texts and counts.  A loose ledger keeps such fields as they
are: counts are added where they have a sum, and keys are put in order where they have one.  Where they
have none, the operation fails, and what it did before stays done.

Where all fields are texts and counts, a loose ledger does what a ledger does.
-/

namespace Conformance

/-- Why an operation on a ledger fails. -/
inductive LedgerError where
  /-- Two keys have no order. -/
  | unordered (e : Unordered)
  /-- Two counts have no sum. -/
  | unsummable (e : Incomputable)
  /-- A position counts back past the first text. -/
  | outOfRange
  deriving Inhabited

namespace LedgerError

def message : LedgerError → String
  | unordered e => e.message
  | unsummable e => e.message
  | outOfRange => "list index out of range"

end LedgerError

/-- The key of an entry, whatever its fields are. -/
structure LooseKey where
  receiver : Value
  method : Value
  index : Value
  deriving Inhabited

namespace LooseKey

/-- Do two fields name the same thing?  What is not a number names itself. -/
def sameField (v w : Value) : Bool :=
  match v, w with
  | .float .nan, .float .nan => true
  | v, w => v.equal w

/-- Do two keys name the same entry? -/
def same (a b : LooseKey) : Bool :=
  sameField a.receiver b.receiver && sameField a.method b.method && sameField a.index b.index

def fields (k : LooseKey) : List Value := [k.receiver, k.method, k.index]

def rank (k : LooseKey) : Value := .sequence .tuple k.fields

end LooseKey

/-- The counts and the text of an entry, whatever they are. -/
structure LooseTally where
  attempted : Value := .int 0
  satisfied : Value := .int 0
  signature : Value := .str ""
  deriving Inhabited

namespace LooseTally

/-- The counts of two tallies together; the first text stays, unless it is empty. -/
def add (a b : LooseTally) : Except Incomputable LooseTally := do
  let attempted ← a.attempted.add b.attempted
  let satisfied ← a.satisfied.add b.satisfied
  return ⟨attempted, satisfied, if a.signature.truth then a.signature else b.signature⟩

/-- Was the overload never satisfied? -/
def isUnexercised (t : LooseTally) : Bool := t.satisfied.equal (.int 0)

end LooseTally

namespace Index

def toValue : Index → Value
  | number n => .int n
  | truth b => .bool b

end Index

namespace LedgerKey

/-- A key with its fields as values. -/
def toLoose (k : LedgerKey) : LooseKey := ⟨.str k.receiver, .str k.method, k.index.toValue⟩

end LedgerKey

namespace Tally

/-- A tally with its fields as values. -/
def toLoose (t : Tally) : LooseTally := ⟨.int t.attempted, .int t.satisfied, .str t.signature⟩

end Tally

/-- The texts of one method by position; a position without one holds nothing. -/
structure LooseTexts where
  receiver : Value
  method : Value
  texts : List Value := []
  deriving Inhabited

namespace LooseTexts

def isOf (receiver method : Value) (m : LooseTexts) : Bool :=
  LooseKey.sameField m.receiver receiver && LooseKey.sameField m.method method

end LooseTexts

/-- A loose ledger. -/
structure LooseLedger where
  entries : List (LooseKey × LooseTally) := []
  methods : List LooseTexts := []
  deriving Inhabited

namespace LooseLedger

/-- An operation on a loose ledger.  What it did before it failed stays done. -/
abbrev Step (α : Type) := ExceptT LedgerError (StateM LooseLedger) α

/-! ## Texts -/

def textsOf (l : LooseLedger) (receiver method : Value) : List Value :=
  ((l.methods.find? (·.isOf receiver method)).map (·.texts)).getD []

def setTexts (l : LooseLedger) (receiver method : Value) (texts : List Value) : LooseLedger :=
  if l.methods.any (·.isOf receiver method) then
    { l with methods := l.methods.map fun m => if m.isOf receiver method then { m with texts } else m }
  else { l with methods := l.methods ++ [⟨receiver, method, texts⟩] }

/-- The position of a text among the overloads of its method; a new text comes last. -/
def indexOf (receiver method signature : Value) : Step Nat := do
  let texts := (← get).textsOf receiver method
  match texts.findIdx? (LooseKey.sameField · signature) with
  | some i => return i
  | none =>
    modify (·.setTexts receiver method (texts ++ [signature]))
    return texts.length

/-! ## Entries -/

def tally? (l : LooseLedger) (key : LooseKey) : Option LooseTally :=
  (l.entries.find? (·.1.same key)).map (·.2)

/-- The ledger with the tally under a key replaced, or added at the end. -/
def setTally (l : LooseLedger) (key : LooseKey) (tally : LooseTally) : LooseLedger :=
  if l.entries.any (·.1.same key) then
    { l with entries := l.entries.map fun e => if e.1.same key then (e.1, tally) else e }
  else { l with entries := l.entries ++ [(key, tally)] }

def addTally (key : LooseKey) (tally : LooseTally) : Step Unit := do
  let current := ((← get).tally? key).getD { signature := tally.signature }
  match current.add tally with
  | .ok sum => modify (·.setTally key sum)
  | .error e => throw (.unsummable e)

/-- Makes overloads visible before they are tried. -/
def declare (receiver method : Value) (signatures : List String) : Step (List LooseKey) :=
  signatures.mapM fun signature => do
    let i ← indexOf receiver method (.str signature)
    let key : LooseKey := ⟨receiver, method, .int i⟩
    modify fun l => if (l.tally? key).isSome then l else l.setTally key { signature := .str signature }
    return key

/-- Records an attempt at an overload given by its text. -/
def recordText (receiver method : Value) (signature : String) (satisfied : Bool) : Step LooseKey := do
  let key : LooseKey := ⟨receiver, method, .int (← indexOf receiver method (.str signature))⟩
  addTally key (Tally.one satisfied signature).toLoose
  return key

/-- Records an attempt at an overload given by its position.  A position past the known texts has no
text yet. -/
def recordIndex (receiver method : Value) (index : Index) (satisfied : Bool) : Step LooseKey := do
  let known := (← get).textsOf receiver method
  let key : LooseKey := ⟨receiver, method, index.toValue⟩
  let text ← if index.toInt < known.length then
      match Ledger.elementAt? known index.toInt with
      | some text => pure (if text.truth then text else .str "")
      | none => throw .outOfRange
    else pure (.str "")
  addTally key { (Tally.one satisfied "").toLoose with signature := text }
  return key

/-! ## Views -/

/-- The entries in order of their keys. -/
def sorted (l : LooseLedger) : Except LedgerError (List (LooseKey × LooseTally)) :=
  match Value.sortByKey Value.less (l.entries.map fun e => (e.1.rank, e)) with
  | .ok pairs => .ok (pairs.map (·.2))
  | .error e => .error (.unordered e)

/-- The keys of overloads that no call has satisfied, in order. -/
def unexercised (l : LooseLedger) : Except LedgerError (List LooseKey) := do
  let missing ← { l with entries := l.entries.filter (·.2.isUnexercised) }.sorted
  return missing.map (·.1)

/-- The sums over all entries. -/
structure Totals where
  overloads : Nat
  attempted : Value
  satisfied : Value
  unexercised : Nat
  deriving Inhabited

/-- The sum of a count over all entries. -/
def total (l : LooseLedger) (count : LooseTally → Value) : Except LedgerError Value :=
  (l.entries.foldlM (fun n e => Value.add n (count e.2)) (Value.int 0)).mapError .unsummable

/-- The sums over all entries. -/
def totals (l : LooseLedger) : Except LedgerError Totals := do
  return { overloads := l.entries.length
           attempted := ← l.total (·.attempted)
           satisfied := ← l.total (·.satisfied)
           unexercised := (l.entries.filter (·.2.isUnexercised)).length }

/-! ## Merging -/

/-- Adds one entry of another ledger.  A known text is looked up, for its position may differ. -/
def mergeEntry (e : LooseKey × LooseTally) : Step Unit := do
  if e.2.signature.truth then
    let i ← indexOf e.1.receiver e.1.method e.2.signature
    addTally { e.1 with index := .int i } e.2
  else addTally e.1 e.2

/-- Adds the counts of another ledger. -/
def merge (other : LooseLedger) : Step Unit := do
  (← other.sorted).forM mergeEntry

end LooseLedger

namespace Ledger

/-- A ledger with its fields as values. -/
def toLoose (l : Ledger) : LooseLedger where
  entries := l.entries.map fun e => (e.1.toLoose, e.2.toLoose)
  methods := l.methods.map fun m =>
    ⟨.str m.receiver, .str m.method, m.texts.map fun t => (t.map Value.str).getD .null⟩

end Ledger

end Conformance
