import Mathlib
import Conformance.Ledger

/-!
# Histories of ledgers

An operation on a ledger as a value (`Op`), what it does and answers (`Op.apply`), and what a list of them comes to
(`after`, `trace`).  An operation that fails leaves the ledger as it was, and says so.

A `History` is a list of operations of one kind, from the empty ledger on, together with merges of ledgers that have
such a history themselves.
-/

namespace Conformance

namespace Ledger

/-- An operation on a ledger. -/
inductive Op where
  /-- Asks for the position of a text. -/
  | indexOf (receiver method signature : String)
  /-- Makes overloads visible. -/
  | declare (receiver method : String) (signatures : List String)
  /-- Records an attempt at an overload given by its text. -/
  | recordText (receiver method signature : String) (satisfied : Bool)
  /-- Records an attempt at an overload given by its position. -/
  | recordIndex (receiver method : String) (index : Index) (satisfied : Bool)
  /-- Adds the counts of another ledger. -/
  | merge (other : Ledger)
  deriving Inhabited

/-- What an operation answers. -/
inductive Answer where
  | position (i : Nat)
  | keys (ks : List LedgerKey)
  | merged
  /-- A position counts back past the first text. -/
  | outOfRange
  deriving DecidableEq, Inhabited

/-- The answer of an operation, and the ledger after it. -/
def Op.apply : Op → Ledger → Answer × Ledger
  | indexOf r m s, l => (l.indexOf r m s).map .position id
  | declare r m ss, l => (l.declare r m ss).map .keys id
  | recordText r m s ok, l => (l.recordText r m s ok).map (fun k => .keys [k]) id
  | recordIndex r m i ok, l =>
    match l.recordIndex? r m i ok with
    | some (k, l') => (.keys [k], l')
    | none => (.outOfRange, l)
  | merge other, l => (.merged, l.merge other)

/-- The ledger after operations. -/
def after (l : Ledger) (ops : List Op) : Ledger := ops.foldl (fun l op => (op.apply l).2) l

/-- What each of the operations answers, with the ledger after it. -/
def trace (l : Ledger) : List Op → List (Answer × Ledger)
  | [] => []
  | op :: ops => op.apply l :: (op.apply l).2.trace ops

/-- Operations of one kind, and merges of ledgers that came about by such operations. -/
inductive History (kind : Op → Prop) : List Op → Prop
  | nil : History kind []
  | step {ops : List Op} {op : Op} (h : History kind ops) (hop : kind op) : History kind (ops ++ [op])
  | merge {ops others : List Op} (h : History kind ops) (hothers : History kind others) :
      History kind (ops ++ [.merge (empty.after others)])

theorem History.of_forall {kind : Op → Prop} {ops : List Op} (h : ∀ op ∈ ops, kind op) : History kind ops := by
  induction ops using List.reverseRecOn with
  | nil => exact .nil
  | append_singleton ops op ih => exact .step (ih fun o ho => h o (by simp [ho])) (h op (by simp))

@[simp]
theorem after_append (l : Ledger) (ops more : List Op) : l.after (ops ++ more) = (l.after ops).after more :=
  List.foldl_append

theorem after_singleton (l : Ledger) (op : Op) : l.after [op] = (op.apply l).2 := rfl

end Ledger

end Conformance
