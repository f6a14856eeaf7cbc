import Conformance.TypeExpr
import Conformance.Value

/-!
# Equality of values

Numbers of all kinds are equal when they denote the same number, so `1`, `true` and `1.0` are one key
of a mapping.  Collections are compared by content, sets without regard to order.  Objects without an
equality of their own equal nothing but themselves.
-/

namespace Conformance

namespace Value

/-- The exact quotient that a finite number denotes. -/
def ratio? : Value → Option (Int × Nat)
  | bool b => some (b.toInt, 1)
  | int n => some (n, 1)
  | float x => x.ratio?
  | complex re im => if im.same (.finite false 0 0) then re.ratio? else none
  | fraction num den => some (num, den)
  | decimal x => x.ratio?
  | _ => none

/-- Where a number lies: below, among or above all finite ones, and where among them. -/
def extent? : Value → Option (Int × Int × Nat)
  | float (.infinite negative) | complex (.infinite negative) (.finite _ 0 _) | decimal (.infinite negative) =>
    some (if negative then -1 else 1, 0, 1)
  | v => v.ratio?.map fun q => (0, q)

def sameNumber (a b : Value) : Bool :=
  match extent? a, extent? b with
  | some (i, m, d), some (j, n, e) => i == j && m * e == n * d
  | _, _ => false

mutual

def equal : Value → Value → Bool
  | null, w => match w with
    | null => true
    | _ => false
  | bool b, w => sameNumber (bool b) w.core
  | int n, w => sameNumber (int n) w.core
  | float x, w => sameNumber (float x) w.core
  | fraction num den, w => sameNumber (fraction num den) w.core
  | decimal x, w => sameNumber (decimal x) w.core
  | complex re im, w => match w.core with
    | complex re' im' => re.same re' && im.same im'
    | w => sameNumber (complex re im) w
  | str s, w => match w.core with
    | str t => s == t
    | _ => false
  | bytes _ data, w => match w.core with
    | bytes _ d => data == d
    | _ => false
  | sequence kind items, w => match w.core with
    | sequence k is => match kind, k with
      | .list, .list | .tuple, .tuple | .deque, .deque => equalAll items is
      | .set, .set | .set, .frozenset | .frozenset, .set | .frozenset, .frozenset =>
        items.length == is.length && allIn items is
      | _, _ => false
    | _ => false
  | mapping kind entries, w => match w.core with
    | mapping k es => match kind, k with
      | .orderedDict, .orderedDict => equalEntries entries es
      | .toHash, _ | _, .toHash => false
      | _, _ => entries.length == es.length && entriesIn entries es
    | _ => false
  | range start stop step, w => match w with
    | range a b c =>
      let n := rangeLength start stop step
      n == rangeLength a b c && (n == 0 || (start == a && (n == 1 || step == c)))
    | _ => false
  | classObject c, w => match w with
    | classObject d => c == d
    | _ => false
  | moduleObject m, w => match w with
    | moduleObject n => m == n
    | _ => false
  | builtin f, w => match w with
    | builtin g => f == g
    | _ => false
  | function _ f, w => match w with
    | function _ g => f == g
    | _ => false
  | cell i, w => match w with
    | cell j => i == j
    | _ => false
  | date y m d, w => match w with
    | date y' m' d' => y == y' && m == m' && d == d'
    | _ => false
  | datetime fields, w => match w with
    | datetime fs => fields == fs
    | _ => false
  | path p, w => match w with
    | path q => p == q
    | _ => false
  | pattern p, w => match w with
    | pattern q => p == q
    | _ => false
  | object _ (some v) _, w => v.equal w
  | _, _ => false

def equalAll : List Value → List Value → Bool
  | [], ws => ws.isEmpty
  | v :: vs, ws => match ws with
    | w :: ws => v.equal w && equalAll vs ws
    | [] => false

/-- Is every value of the first list in the second? -/
def allIn : List Value → List Value → Bool
  | [], _ => true
  | v :: vs, ws => ws.any (fun w => v.equal w) && allIn vs ws

def equalEntries : List (Value × Value) → List (Value × Value) → Bool
  | [], es => es.isEmpty
  | (k, v) :: rest, es => match es with
    | e :: es => k.equal e.1 && v.equal e.2 && equalEntries rest es
    | [] => false

/-- Is every entry of the first list in the second? -/
def entriesIn : List (Value × Value) → List (Value × Value) → Bool
  | [], _ => true
  | (k, v) :: rest, es => es.any (fun e => k.equal e.1 && v.equal e.2) && entriesIn rest es

end

def ofKey : Key → Value
  | .int n => int n
  | .str s => str s
  | .bool b => bool b

end Value

end Conformance
