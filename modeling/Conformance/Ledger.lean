/-!
# The coverage ledger

Which overloads of which methods were tried and satisfied.  An overload is known by the position of
its text among the texts of its method, in the order they were first seen.  Entries stand in the order
they were made.

Every count is only ever added to: `record` adds one, `merge` adds the counts of another ledger.
-/

namespace Conformance

/-- The position of an overload as it was given: a number, or a truth value, which counts as 1 or 0. -/
inductive Index where
  | number (n : Int)
  | truth (b : Bool)
  deriving DecidableEq, Repr, Inhabited

namespace Index

/-- The number that a position denotes. -/
def toInt : Index → Int
  | number n => n
  | truth b => b.toInt

/-- A position as shown. -/
def text : Index → String
  | number n => toString n
  | truth b => if b then "True" else "False"

end Index

/-- The key of an entry. -/
structure LedgerKey where
  receiver : String
  method : String
  index : Index
  deriving DecidableEq, Repr, Inhabited

namespace LedgerKey

/-- Do two keys name the same entry? -/
def same (a b : LedgerKey) : Bool :=
  a.receiver == b.receiver && a.method == b.method && a.index.toInt == b.index.toInt

/-- The order of keys: by receiver, method and position. -/
def le (a b : LedgerKey) : Bool :=
  decide (a.receiver < b.receiver) || a.receiver == b.receiver &&
    (decide (a.method < b.method) || a.method == b.method && decide (a.index.toInt ≤ b.index.toInt))

end LedgerKey

/-- How often an overload was tried and satisfied, and its text as far as it is known. -/
structure Tally where
  attempted : Int := 0
  satisfied : Int := 0
  signature : String := ""
  deriving DecidableEq, Repr, Inhabited

namespace Tally

/-- The counts of two tallies together; the first known text stays. -/
def add (a b : Tally) : Tally :=
  ⟨a.attempted + b.attempted, a.satisfied + b.satisfied,
    if a.signature.isEmpty then b.signature else a.signature⟩

def one (satisfied : Bool) (signature : String) : Tally := ⟨1, satisfied.toInt, signature⟩

end Tally

/-- The texts of one method by position; a position may have none. -/
structure MethodTexts where
  receiver : String
  method : String
  texts : List (Option String) := []
  deriving DecidableEq, Repr, Inhabited

/-- The ledger. -/
structure Ledger where
  entries : List (LedgerKey × Tally) := []
  methods : List MethodTexts := []
  deriving DecidableEq, Repr, Inhabited

namespace Ledger

/-- The ledger without entries. -/
def empty : Ledger := {}

/-! ## Texts -/

def textsOf (l : Ledger) (receiver method : String) : List (Option String) :=
  ((l.methods.find? fun m => m.receiver == receiver && m.method == method).map (·.texts)).getD []

def setTexts (l : Ledger) (receiver method : String) (texts : List (Option String)) : Ledger :=
  let isIt (m : MethodTexts) := m.receiver == receiver && m.method == method
  if l.methods.any isIt then
    { l with methods := l.methods.map fun m => if isIt m then { m with texts } else m }
  else { l with methods := l.methods ++ [⟨receiver, method, texts⟩] }

/-- The position of a text among the overloads of its method; a new text comes last. -/
def indexOf (l : Ledger) (receiver method signature : String) : Nat × Ledger :=
  let texts := l.textsOf receiver method
  match texts.findIdx? (· == some signature) with
  | some i => (i, l)
  | none => (texts.length, l.setTexts receiver method (texts ++ [some signature]))

/-! ## Entries -/

def tally? (l : Ledger) (key : LedgerKey) : Option Tally :=
  (l.entries.find? (·.1.same key)).map (·.2)

/-- The ledger with the tally under a key replaced, or added at the end. -/
def setTally (l : Ledger) (key : LedgerKey) (tally : Tally) : Ledger :=
  if l.entries.any (·.1.same key) then
    { l with entries := l.entries.map fun e => if e.1.same key then (e.1, tally) else e }
  else { l with entries := l.entries ++ [(key, tally)] }

def addTally (l : Ledger) (key : LedgerKey) (tally : Tally) : Ledger :=
  l.setTally key (((l.tally? key).getD { signature := tally.signature }).add tally)

/-- Makes one overload visible before it is tried. -/
def declareOne (l : Ledger) (receiver method signature : String) : LedgerKey × Ledger :=
  let (i, l) := l.indexOf receiver method signature
  let key : LedgerKey := ⟨receiver, method, .number i⟩
  (key, if (l.tally? key).isSome then l else l.setTally key { signature })

/-- Makes overloads visible before they are tried. -/
def declare (l : Ledger) (receiver method : String) : List String → List LedgerKey × Ledger
  | [] => ([], l)
  | signature :: rest =>
    let (key, l) := l.declareOne receiver method signature
    let (keys, l) := l.declare receiver method rest
    (key :: keys, l)

/-- Records an attempt at an overload given by its text. -/
def recordText (l : Ledger) (receiver method signature : String) (satisfied : Bool) :
    LedgerKey × Ledger :=
  let (i, l) := l.indexOf receiver method signature
  let key : LedgerKey := ⟨receiver, method, .number i⟩
  (key, l.addTally key (.one satisfied signature))

/-- The element at a position; a negative one counts from the end. -/
def elementAt? {α : Type} (items : List α) (i : Int) : Option α :=
  if 0 ≤ i then items[i.toNat]?
  else if 0 ≤ items.length + i then items[(items.length + i).toNat]?
  else none

/-- Records an attempt at an overload given by its position.  A position past the known texts has no
text yet.  There is no result when the position counts back past the first. -/
def recordIndex? (l : Ledger) (receiver method : String) (index : Index) (satisfied : Bool) :
    Option (LedgerKey × Ledger) :=
  let known := l.textsOf receiver method
  let key : LedgerKey := ⟨receiver, method, index⟩
  let recorded (text : String) := (key, l.addTally key (.one satisfied text))
  if index.toInt < known.length then (elementAt? known index.toInt).map fun t => recorded (t.getD "")
  else some (recorded "")

/-! ## Views -/

/-- The entries in order of their keys. -/
def sorted (l : Ledger) : List (LedgerKey × Tally) := l.entries.mergeSort fun a b => a.1.le b.1

/-- The keys of overloads that no call has satisfied, in order. -/
def unexercised (l : Ledger) : List LedgerKey :=
  (l.sorted.filter fun e => e.2.satisfied == 0).map (·.1)

/-- The sums over all entries. -/
structure Totals where
  overloads : Nat
  attempted : Int
  satisfied : Int
  unexercised : Nat
  deriving DecidableEq, Repr, Inhabited

/-- The sum of a count over all entries. -/
def total (l : Ledger) (count : Tally → Int) : Int := l.entries.foldr (fun e n => count e.2 + n) 0

/-- The sums over all entries. -/
def totals (l : Ledger) : Totals where
  overloads := l.entries.length
  attempted := l.total (·.attempted)
  satisfied := l.total (·.satisfied)
  unexercised := (l.entries.filter (·.2.satisfied == 0)).length

/-! ## Merging -/

/-- Adds one entry of another ledger.  A known text is looked up, for its position may differ. -/
def mergeEntry (l : Ledger) (e : LedgerKey × Tally) : Ledger :=
  if e.2.signature.isEmpty then l.addTally e.1 e.2 else
  let (i, l) := l.indexOf e.1.receiver e.1.method e.2.signature
  l.addTally { e.1 with index := .number i } e.2

/-- Adds the counts of another ledger. -/
def merge (l other : Ledger) : Ledger := other.sorted.foldl mergeEntry l

end Ledger

end Conformance
