import Conformance.Double

/-!
# Shortest decimal form of a double

The digits are the fewest that read back as the same double, and of those the nearest to its value.
`Double.render` lays them out: positionally from `0.0001` up to sixteen digits before the point, and
with an exponent of at least two digits elsewhere.
-/

namespace Conformance.Double

/-- The decimal digits of a natural number, most significant first. -/
def decimalDigits (n : Nat) : List Char := Nat.toDigits 10 n

/-- The number `k` with `10 ^ (k - 1) ≤ num / den < 10 ^ k`, for a positive double. -/
def pointOf (num den : Nat) : Int :=
  (decimalDigits (num * tenTo 400 / den)).length - 400

def ofDecimal (negative : Bool) (units : Nat) (e : Int) : Double :=
  round negative (units * tenTo e) (tenTo (-e))

/-- The nearer of the value's two neighbours in units of `10 ^ e` that read back as the double. -/
def neighbour? (num den : Nat) (target : Double) (e : Int) : Option Nat :=
  let n := num * tenTo (-e)
  let d := den * tenTo e
  let low := n / d
  let reads (units : Nat) : Bool := ofDecimal false units e == target
  let lowNearer : Bool := 2 * (n % d) < d || (2 * (n % d) == d && low % 2 == 0)
  match reads low, reads (low + 1) with
  | true, true => some (if lowNearer then low else low + 1)
  | true, false => some low
  | false, true => some (low + 1)
  | false, false => none

/-- The first of `count` grids, from `digits` digits on, that has a neighbour reading back. -/
def shortestFrom (num den : Nat) (target : Double) (point : Int) (digits : Nat) :
    (count : Nat) → Nat × Int
  | 0 => (0, 0)
  | count + 1 =>
    let e := point - digits
    match neighbour? num den target e with
    | some units => (units, e)
    | none => shortestFrom num den target point (digits + 1) count

/-- Digits without zeros at the end, and the position of the point after the first of them. -/
def shortest (m : Nat) (e : Int) : List Char × Int :=
  let num := m * twoTo e
  let den := twoTo (-e)
  let (units, unit) := shortestFrom num den (.finite false m e) (pointOf num den) 1 17
  let digits := decimalDigits units
  let kept := (digits.reverse.dropWhile (· == '0')).reverse
  (kept, digits.length + unit)

def zeros (n : Nat) : List Char := List.replicate n '0'

/-- An exponent with its sign and at least two digits. -/
def exponentText (e : Int) : List Char :=
  let digits := decimalDigits e.natAbs
  'e' :: (if e < 0 then '-' else '+') :: zeros (2 - digits.length) ++ digits

/-- Digits with the point after the first `point` of them; `tail` follows a whole number. -/
def layout (digits : List Char) (point : Int) (tail : List Char) : List Char :=
  if point ≤ -4 ∨ 16 < point then
    match digits with
    | [] => []
    | [d] => d :: exponentText (point - 1)
    | d :: ds => d :: '.' :: ds ++ exponentText (point - 1)
  else if point ≤ 0 then ['0', '.'] ++ zeros (-point).toNat ++ digits
  else
    let whole := digits.take point.toNat
    let part := digits.drop point.toNat
    whole ++ zeros (point.toNat - whole.length) ++ (if part.isEmpty then tail else '.' :: part)

/-- The decimal form of a double; `tail` follows a whole number written positionally. -/
def renderWith (tail : List Char) : Double → String
  | .nan => "nan"
  | .infinite negative => if negative then "-inf" else "inf"
  | .finite negative m e =>
    let sign : List Char := if negative then ['-'] else []
    if m = 0 then String.ofList (sign ++ '0' :: tail) else
    let (digits, point) := shortest m e
    String.ofList (sign ++ layout digits point tail)

/-- The decimal form of a double; a whole number keeps one zero after the point. -/
def render (x : Double) : String := renderWith ['.', '0'] x

end Conformance.Double
