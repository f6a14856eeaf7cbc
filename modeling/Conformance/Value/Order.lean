import Conformance.Value.Equality

/-!
# The order of values

Numbers of all kinds are ordered by size, texts, bytes and paths by their characters, lists and tuples by
their first unequal elements, and sets by inclusion.  Other values have no order, and sorting them is an error.

Sorting is stable.  A leading run is kept, or reversed when it falls, and the others are inserted one by
one by bisection; so it is known which values are compared, and which two an unsuccessful sort complains about.
-/

namespace Conformance

/-- Two values that have no order. -/
structure Unordered where
  left : Value
  right : Value
  deriving Inhabited

namespace Unordered

/-- The complaint.  A read-only view leaves the comparison to the mapping behind it; on the right, it is
asked the other way round. -/
def message (e : Unordered) : String :=
  let name (v : Value) : String := match v with
    | .mapping .mappingProxy _ => MappingKind.dict.classId.name
    | v => v.kindName
  let complaint (symbol : String) (v w : Value) : String :=
    s!"'{symbol}' not supported between instances of '{name v}' and '{name w}'"
  match e.right with
  | .mapping .mappingProxy _ => complaint ">" e.right e.left
  | _ => complaint "<" e.left e.right

end Unordered

namespace Value

/-- Is one number less than another?  What is not a number is neither less nor greater than any. -/
def numberLess? (a b : Value) : Option Bool :=
  match extent? a, extent? b, a, b with
  | _, _, .complex _ _, _ | _, _, _, .complex _ _ => none
  | some (i, m, d), some (j, n, e), _, _ => some (decide (i < j) || (i == j && decide (m * e < n * d)))
  | some _, none, _, .float .nan | none, some _, .float .nan, _ | none, none, .float .nan, .float .nan =>
    some false
  | _, _, _, _ => none

/-- The parts that a path is ordered by: the slashes it starts with, and its names. -/
def pathParts (path : String) : List String :=
  let root := path.toList.takeWhile (· == '/')
  let names := (path.splitOn "/").filter fun name => !name.isEmpty && name != "."
  if root.isEmpty then names else String.ofList root :: names

mutual

/-- Is one value less than another?  Collections are compared at their first unequal elements.  Where there
is no answer, the elements that cannot be compared are named, unless it is the values themselves. -/
def less? : Value → Value → Except (Option (Value × Value)) Bool
  | .object _ (some v) _, w => less? v w
  | .str s, w =>
    match w.core with
    | .str t => .ok (decide (s < t))
    | _ => .error none
  | .bytes kind data, w =>
    match w.core with
    | .bytes k d =>
      if (kind == .memoryview || k == .memoryview) && kind != .bytearray && k != .bytearray then .error none
      else .ok (decide (data < d))
    | _ => .error none
  | .sequence kind items, w =>
    match w.core with
    | .sequence k is =>
      match kind, k with
      | .list, .list | .tuple, .tuple | .deque, .deque => lessAll items is
      | .set, .set | .set, .frozenset | .frozenset, .set | .frozenset, .frozenset =>
        .ok (decide (items.length < is.length) && allIn items is)
      | _, _ => .error none
    | _ => .error none
  | .date y m d, w =>
    match w with
    | .date y' m' d' => .ok (decide ([y, m, d] < [y', m', d']))
    | _ => .error none
  | .datetime fields, w =>
    match w with
    | .datetime fs => .ok (decide (fields < fs))
    | _ => .error none
  | .path p, w =>
    match w with
    | .path q => .ok (decide (pathParts p < pathParts q))
    | _ => .error none
  | v, w =>
    match numberLess? v w.core with
    | some r => .ok r
    | none => .error none

def lessAll : List Value → List Value → Except (Option (Value × Value)) Bool
  | [], ws => .ok (!ws.isEmpty)
  | v :: vs, ws =>
    match ws with
    | [] => .ok false
    | w :: ws =>
      if v.equal w then lessAll vs ws else
      match less? v w with
      | .error none => .error (some (v, w))
      | r => r

end

def less (a b : Value) : Except Unordered Bool :=
  match less? a b with
  | .ok r => .ok r
  | .error parts =>
    let (v, w) := parts.getD (a, b)
    .error ⟨v, w⟩

section Sorting

variable {α : Type} {m : Type → Type} [Monad m] (less : Value → Value → m Bool)

/-- The place for a key among sorted ones, after its equals, by bisection between `low` and `high`. -/
def insertionPlace (sorted : List (Value × α)) (key : Value) : (fuel low high : Nat) → m Nat
  | 0, low, _ => return low
  | fuel + 1, low, high => do
    if high ≤ low then return low
    let middle := (low + high) / 2
    let pivot := ((sorted[middle]?).map (·.1)).getD .null
    if ← less key pivot then insertionPlace sorted key fuel low middle
    else insertionPlace sorted key fuel (middle + 1) high

def leadingRun (falling : Bool) : List (Value × α) → m Nat
  | a :: b :: rest => do
    if (← less b.1 a.1) == falling then return (← leadingRun falling (b :: rest)) + 1 else return 1
  | l => return l.length

/-- Inserts an element at its place among sorted ones. -/
def insertSorted (sorted : List (Value × α)) (e : Value × α) : m (List (Value × α)) := do
  let place ← insertionPlace less sorted e.1 (sorted.length + 1) 0 sorted.length
  return sorted.take place ++ e :: sorted.drop place

/-- Sorts elements by their keys, equal ones in their order.  The first two keys
tell which way the leading run goes. -/
def sortByKey (pairs : List (Value × α)) : m (List (Value × α)) := do
  match pairs with
  | a :: b :: rest =>
    let falling ← less b.1 a.1
    let length ← leadingRun less falling (b :: rest)
    let run := if falling then (pairs.take (length + 1)).reverse else pairs.take (length + 1)
    (pairs.drop (length + 1)).foldlM (insertSorted less) run
  | pairs => return pairs

end Sorting

end Value

end Conformance
