import Conformance.Ledger.Loose

/-!
# Coverage

The coverage of a program, as far as it is known: a ledger, or a loose one where a report held other
fields than a ledger has.  The operations are those of the ledger at hand; their answers have the form that
both kinds share.
-/

namespace Conformance

/-- A ledger of either kind. -/
inductive Coverage where
  | strict (l : Ledger)
  | loose (l : LooseLedger)
  deriving Inhabited

namespace Coverage

def empty : Coverage := .strict .empty

/-- The ledger with its fields as values. -/
def toLoose : Coverage → LooseLedger
  | strict l => l.toLoose
  | loose l => l

/-- An operation on coverage.  What it did before it failed stays done. -/
abbrev Step (α : Type) := ExceptT LedgerError (StateM Coverage) α

/-- An operation that is done on a ledger of either kind. -/
def step {α : Type} (strictly : Ledger → Except LedgerError (α × Ledger)) (loosely : LooseLedger.Step α) :
    Step α := do
  match ← get with
  | strict l =>
    let (a, l) ← strictly l
    set (strict l)
    return a
  | loose l =>
    let (r, l) := loosely.run.run l
    set (loose l)
    r

/-- The position of a text among the overloads of its method; a new text comes last. -/
def indexOf (receiver method signature : String) : Step Nat :=
  step (fun l => .ok (l.indexOf receiver method signature))
    (LooseLedger.indexOf (.str receiver) (.str method) (.str signature))

/-- Makes overloads visible before they are tried. -/
def declare (receiver method : String) (signatures : List String) : Step (List LooseKey) :=
  step (fun l => .ok ((l.declare receiver method signatures).map (·.map LedgerKey.toLoose) id))
    (LooseLedger.declare (.str receiver) (.str method) signatures)

/-- Records an attempt at an overload given by its text. -/
def recordText (receiver method signature : String) (satisfied : Bool) : Step LooseKey :=
  step (fun l => .ok ((l.recordText receiver method signature satisfied).map LedgerKey.toLoose id))
    (LooseLedger.recordText (.str receiver) (.str method) signature satisfied)

/-- Records an attempt at an overload given by its position. -/
def recordIndex (receiver method : String) (index : Index) (satisfied : Bool) : Step LooseKey :=
  step (fun l => match l.recordIndex? receiver method index satisfied with
    | some r => .ok (r.map LedgerKey.toLoose id)
    | none => .error .outOfRange)
    (LooseLedger.recordIndex (.str receiver) (.str method) index satisfied)

/-- Adds the counts of other coverage. -/
def merge (other : Coverage) : Step Unit := do
  match ← get, other with
  | strict l, strict m => set (strict (l.merge m))
  | c, other =>
    let (r, l) := (LooseLedger.merge other.toLoose).run.run c.toLoose
    set (loose l)
    r

/-! ## Views -/

/-- The entries in the order they were made. -/
def entries (c : Coverage) : List (LooseKey × LooseTally) := c.toLoose.entries

/-- The entries in order of their keys. -/
def sorted : Coverage → Except LedgerError (List (LooseKey × LooseTally))
  | strict l => .ok (l.sorted.map fun e => (e.1.toLoose, e.2.toLoose))
  | loose l => l.sorted

/-- The keys of overloads that no call has satisfied, in order. -/
def unexercised : Coverage → Except LedgerError (List LooseKey)
  | strict l => .ok (l.unexercised.map LedgerKey.toLoose)
  | loose l => l.unexercised

/-- The sums over all entries. -/
def totals : Coverage → Except LedgerError LooseLedger.Totals
  | strict l =>
    let t := l.totals
    .ok ⟨t.overloads, .int t.attempted, .int t.satisfied, t.unexercised⟩
  | loose l => l.totals

end Coverage

end Conformance
