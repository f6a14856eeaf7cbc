/-!
# Double-precision numbers

A `Double` is a sign, a mantissa below `2 ^ 53` and a power of two, or an infinity, or not a number.
`Double.round` is the one rounding: the nearest double to a quotient of natural numbers, ties to the
even mantissa.  Addition, multiplication and division are exact computations followed by it.
-/

namespace Conformance

/-- A double-precision number; `finite` stands for `± mantissa * 2 ^ exponent`. -/
inductive Double where
  | nan
  | infinite (negative : Bool)
  | finite (negative : Bool) (mantissa : Nat) (exponent : Int)
  deriving DecidableEq, Inhabited

namespace Double

/-- The least exponent; doubles with it may have a mantissa below `2 ^ 52`. -/
def minExponent : Int := -1074

def maxExponent : Int := 971

/-- A power of two; an exponent below zero counts as zero. -/
def twoTo (e : Int) : Nat := Nat.pow 2 e.toNat

/-- A power of ten; an exponent below zero counts as zero. -/
def tenTo (e : Int) : Nat := Nat.pow 10 e.toNat

/-- The quotient of two natural numbers in units of `2 ^ e`, as a numerator and a denominator. -/
def scaled (num den : Nat) (e : Int) : Nat × Nat :=
  if 0 ≤ e then (num, den * twoTo e) else (num * twoTo (-e), den)

/-- The nearest natural number to a quotient; a tie goes to the even neighbour. -/
def divideEven (num den : Nat) : Nat :=
  let q := num / den
  let r := num % den
  if 2 * r < den then q
  else if den < 2 * r then q + 1
  else if q % 2 = 0 then q else q + 1

/-- The exponent at which a quotient has a mantissa of 53 bits, but not below the least one. -/
def exponentOf (num den : Nat) : Int :=
  let guess : Int := (num.log2 : Int) - (den.log2 : Int) - 52
  let (n, d) := scaled num den guess
  let e := if n < d * twoTo 52 then guess - 1 else guess
  max e minExponent

def round (negative : Bool) (num den : Nat) : Double :=
  if num = 0 then .finite negative 0 minExponent else
  let e := exponentOf num den
  let (n, d) := scaled num den e
  let m := divideEven n d
  let (m, e) := if m = twoTo 53 then (twoTo 52, e + 1) else (m, e)
  if maxExponent < e then .infinite negative else .finite negative m e

/-- The double nearest to an integer. -/
def ofInt (n : Int) : Double := round (n < 0) n.natAbs 1

/-- The exact value of a finite double as an integer numerator and a denominator. -/
def ratio? : Double → Option (Int × Nat)
  | .finite negative m e =>
    let num := m * twoTo e
    some (if negative then -(num : Int) else num, twoTo (-e))
  | _ => none

/-- Equality of numbers: the two zeros are equal and a value that is not a number equals nothing. -/
def same : Double → Double → Bool
  | .finite s m e, .finite t n f => (m == 0 && n == 0) || (s == t && m == n && e == f)
  | .infinite s, .infinite t => s == t
  | _, _ => false

/-- The product of two doubles. -/
def mul : Double → Double → Double
  | .finite s m e, .finite t n f =>
    round (s != t) (m * n * twoTo (e + f)) (twoTo (-(e + f)))
  | .nan, _ | _, .nan => .nan
  | .infinite s, .finite t n _ => if n = 0 then .nan else .infinite (s != t)
  | .finite s m _, .infinite t => if m = 0 then .nan else .infinite (s != t)
  | .infinite s, .infinite t => .infinite (s != t)

/-- The sum of two doubles.  A sum of nothing is positive, unless both are negative zeros. -/
def add : Double → Double → Double
  | .finite s m e, .finite t n f =>
    let signed (negative : Bool) (k : Nat) : Int := if negative then -(k : Int) else k
    let least := min e f
    let total := signed s (m * twoTo (e - least)) + signed t (n * twoTo (f - least))
    let negative := if total == 0 then s && t else decide (total < 0)
    round negative (total.natAbs * twoTo least) (twoTo (-least))
  | .infinite s, .infinite t => if s == t then .infinite s else .nan
  | .infinite s, .finite _ _ _ | .finite _ _ _, .infinite s => .infinite s
  | .nan, _ | _, .nan => .nan

def negate : Double → Double
  | .nan => .nan
  | .infinite negative => .infinite (!negative)
  | .finite negative m e => .finite (!negative) m e

def absolute : Double → Double
  | .nan => .nan
  | .infinite _ => .infinite false
  | .finite _ m e => .finite false m e

/-- Is the double below zero? -/
def isNegative : Double → Bool
  | .nan => false
  | .infinite negative => negative
  | .finite negative m _ => negative && m != 0

/-- The quotient of two doubles. -/
def divide : Double → Double → Double
  | .nan, _ | _, .nan | .infinite _, .infinite _ => .nan
  | .infinite s, .finite t _ _ => .infinite (s != t)
  | .finite s _ _, .infinite t => .finite (s != t) 0 minExponent
  | .finite s m e, .finite t n f =>
    if n = 0 then if m = 0 then .nan else .infinite (s != t)
    else round (s != t) (m * twoTo (e - f)) (n * twoTo (f - e))

/-- What is left of a double after whole multiples of another are taken away, with the sign of the first. -/
def remainder : Double → Double → Double
  | .finite s m e, .finite _ n f =>
    if n = 0 then .nan else
    let least := min e f
    let rest := m * twoTo (e - least) % (n * twoTo (f - least))
    round s (rest * twoTo least) (twoTo (-least))
  | .finite s m e, .infinite _ => .finite s m e
  | _, _ => .nan

/-- The greatest whole double that is not above this one. -/
def floor : Double → Double
  | .finite negative m e =>
    let unit := twoTo (-e)
    let whole := m * twoTo e / unit
    let whole := if negative && m * twoTo e % unit != 0 then whole + 1 else whole
    round negative whole 1
  | x => x

/-- The whole quotient of two doubles, toward negative infinity: the quotient of what the remainder leaves,
taken to the nearest whole number. -/
def floorQuotient (x y : Double) : Double :=
  let one : Double := .finite false (twoTo 52) (-52)
  let rest := x.remainder y
  let quotient := (x.add rest.negate).divide y
  let quotient :=
    if !rest.same (.finite false 0 0) && y.isNegative != rest.isNegative then quotient.add one.negate else quotient
  if quotient.same (.finite false 0 0) then
    .finite (match x.divide y with
      | .finite negative _ _ | .infinite negative => negative
      | .nan => false) 0 minExponent
  else
    let whole := quotient.floor
    if ((Double.finite false (twoTo 52) (-53)).add (quotient.add whole.negate).negate).isNegative then whole.add one
    else whole

/-- The whole square root of a natural number, from that of a quarter of it. -/
def squareRoot : (fuel : Nat) → Nat → Nat
  | 0, _ => 0
  | fuel + 1, n =>
    if n = 0 then 0 else
    let r := 2 * squareRoot fuel (n / 4)
    if (r + 1) * (r + 1) ≤ n then r + 1 else r

/-- The length of the hypotenuse over two sides.  The root is taken with so many bits to spare that one more
bit for what it leaves out decides the rounding. -/
def hypotenuse : Double → Double → Double
  | .infinite _, _ | _, .infinite _ => .infinite false
  | .nan, _ | _, .nan => .nan
  | .finite _ m e, .finite _ n f =>
    let least := min e f
    let a := m * twoTo (e - least)
    let b := n * twoTo (f - least)
    let square := (a * a + b * b) * twoTo 128
    let root := squareRoot (square.log2 + 1) square
    let units := 2 * root + if root * root = square then 0 else 1
    let unit := least - 65
    round false (units * twoTo unit) (twoTo (-unit))

/-- The integer part of a finite double, toward zero. -/
def truncate? : Double → Option Int
  | .finite negative m e =>
    let n := m * twoTo e / twoTo (-e)
    some (if negative then -(n : Int) else n)
  | _ => none

end Double

end Conformance
