import Conformance.Double.Reader
import Conformance.Text.Integer

/-!
# Decimal numbers

A `Decimal` keeps the digits it was written with, so `1.50` and `1.5` are two forms of one number.
Arithmetic is exact up to `Decimal.precision` digits, and a result with more of them is rounded, a half
to the even neighbour.
-/

namespace Conformance

/-- A decimal number; `finite` stands for `± digits * 10 ^ exponent`. -/
inductive Decimal where
  | finite (negative : Bool) (digits : Nat) (exponent : Int)
  | infinite (negative : Bool)
  | nan (negative signalling : Bool) (payload : Nat)
  deriving DecidableEq, Inhabited

/-- Why there is no decimal number. -/
inductive DecimalError where
  /-- The text denotes none. -/
  | malformed
  | divisionByZero
  /-- Zero is divided by zero. -/
  | undefinedQuotient
  /-- The whole quotient has more digits than are kept. -/
  | longQuotient
  /-- The operation has no meaning for these operands. -/
  | meaningless
  deriving DecidableEq, Repr, Inhabited

namespace Decimal

/-- How many digits the result of an operation has at most. -/
def precision : Nat := 28

/-! ## Text -/

/-- Is the number none at all? -/
def isNaN : Decimal → Bool
  | nan _ _ _ => true
  | _ => false

/-- Digits with the point and exponent that their place asks for: no exponent for a whole number, or one
with at most six zeros after the point. -/
def layout (digits : List Char) (exponent : Int) : List Char :=
  let place : Int := exponent + digits.length
  if exponent ≤ 0 ∧ -6 < place then
    if exponent = 0 then digits
    else if 0 < place then digits.take place.toNat ++ '.' :: digits.drop place.toNat
    else '0' :: '.' :: Double.zeros (-place).toNat ++ digits
  else
    let e := place - 1
    let mark := if e = 0 then [] else 'E' :: (if e < 0 then '-' else '+') :: Double.decimalDigits e.natAbs
    (match digits with
      | d :: next :: rest => d :: '.' :: next :: rest
      | ds => ds) ++ mark

/-- How a decimal number is written. -/
def render (x : Decimal) : String :=
  let signed (negative : Bool) (s : String) : String := if negative then "-" ++ s else s
  match x with
  | finite negative digits exponent =>
    signed negative (String.ofList (layout (Double.decimalDigits digits) exponent))
  | infinite negative => signed negative "Infinity"
  | nan negative signalling payload =>
    signed negative ((if signalling then "sNaN" else "NaN") ++ if payload = 0 then "" else toString payload)

/-- Digits with an optional point and exponent. -/
def readFinite? (negative : Bool) (cs : List Char) : Option Decimal :=
  let whole := cs.takeWhile Char.isDigit
  let rest := cs.dropWhile Char.isDigit
  let (part, rest) := match rest with
    | '.' :: r => (r.takeWhile Char.isDigit, r.dropWhile Char.isDigit)
    | r => ([], r)
  if whole.isEmpty && part.isEmpty then none else
  (Double.readExponent? rest).map fun e =>
    finite negative (Double.digitsValue (whole ++ part)) (e - part.length)

/-- A number that is none, which may have digits. -/
def readNaN? (negative : Bool) (cs : List Char) : Option Decimal :=
  let (signalling, rest) := match cs with
    | 's' :: rest => (true, rest)
    | rest => (false, rest)
  match rest with
  | 'n' :: 'a' :: 'n' :: ds =>
    if ds.all Char.isDigit then some (nan negative signalling (Double.digitsValue ds)) else none
  | _ => none

/-- Reads a decimal number.  White space around it and underscores are passed over, digits may be of any
script, and the special values of any case. -/
def read? (s : String) : Option Decimal :=
  let trimmed := (Text.trim s).toList.filter (· != '_')
  let plain := trimmed.map Text.asciiDigit
  let (negative, cs) := match plain with
    | '-' :: cs => (true, cs)
    | '+' :: cs => (false, cs)
    | cs => (false, cs)
  let name := cs.map Char.toLower
  if name == "inf".toList || name == "infinity".toList then some (infinite negative)
  else (readNaN? negative name).orElse fun _ => readFinite? negative cs

/-! ## Value -/

/-- The exact value of a finite number as a quotient. -/
def ratio? : Decimal → Option (Int × Nat)
  | finite negative digits exponent =>
    let num : Int := digits * Double.tenTo exponent
    some (if negative then -num else num, Double.tenTo (-exponent))
  | _ => none

/-- The integer part of a finite number, toward zero. -/
def truncate? (x : Decimal) : Option Int := x.ratio?.map fun q => q.1.tdiv q.2

/-- The number that an integer is. -/
def ofInt (n : Int) : Decimal := finite (decide (n < 0)) n.natAbs 0

/-- The number that a double is exactly. -/
def ofDouble : Double → Decimal
  | .nan => nan false false 0
  | .infinite negative => infinite negative
  | .finite negative m e =>
    let (m, e) := reduced m e (-e).toNat
    if 0 ≤ e then finite negative (m * Double.twoTo e) 0
    else finite negative (m * Nat.pow 5 (-e).toNat) e
where
  /-- A mantissa without the factors of two that a negative exponent takes away. -/
  reduced (m : Nat) (e : Int) : (fuel : Nat) → Nat × Int
    | 0 => (m, e)
    | fuel + 1 => if m = 0 then (0, 0) else if m % 2 = 0 then reduced (m / 2) (e + 1) fuel else (m, e)

/-! ## Arithmetic -/

/-- A number with no more digits than are kept. -/
def rounded : Decimal → Decimal
  | finite negative digits exponent =>
    let excess := (Double.decimalDigits digits).length - precision
    if excess = 0 then finite negative digits exponent else
    let kept := Double.divideEven digits (Nat.pow 10 excess)
    if kept = Nat.pow 10 precision then finite negative (kept / 10) (exponent + excess + 1)
    else finite negative kept (exponent + excess)
  | x => x

/-- What an operation makes of operands that are no numbers: the first of them, unless it signals. -/
def passNaN? : List Decimal → Option (Except DecimalError Decimal)
  | xs =>
    if xs.any fun x => match x with
      | nan _ signalling _ => signalling
      | _ => false
    then some (.error .meaningless) else (xs.find? isNaN).map .ok

/-- The sum of two numbers.  A sum of nothing is positive, unless both are negative zeros. -/
def add (x y : Decimal) : Except DecimalError Decimal :=
  match passNaN? [x, y], x, y with
  | some r, _, _ => r
  | none, finite s m e, finite t n f =>
    let signed (negative : Bool) (k : Nat) : Int := if negative then -(k : Int) else k
    let least := min e f
    let total := signed s (m * Double.tenTo (e - least)) + signed t (n * Double.tenTo (f - least))
    let negative := if total == 0 then s && t else decide (total < 0)
    .ok (finite negative total.natAbs least).rounded
  | none, infinite s, infinite t => if s == t then .ok (infinite s) else .error .meaningless
  | none, infinite s, _ | none, _, infinite s => .ok (infinite s)
  | none, _, _ => .error .meaningless

/-- The whole part of a quotient, toward zero. -/
def wholeQuotient (x y : Decimal) : Except DecimalError Decimal :=
  match passNaN? [x, y], x, y with
  | some r, _, _ => r
  | none, infinite _, infinite _ => .error .meaningless
  | none, infinite s, finite t _ _ => .ok (infinite (s != t))
  | none, finite s _ _, infinite t => .ok (finite (s != t) 0 0)
  | none, finite s m e, finite t n f =>
    if n = 0 then .error (if m = 0 then .undefinedQuotient else .divisionByZero) else
    let q := m * Double.tenTo (e - f) / (n * Double.tenTo (f - e))
    if precision < (Double.decimalDigits q).length then .error .longQuotient
    else .ok (finite (s != t) q 0)
  | none, _, _ => .error .meaningless

/-- The negative of a number; that of nothing is positive. -/
def negate (x : Decimal) : Except DecimalError Decimal :=
  match passNaN? [x], x with
  | some r, _ => r
  | none, finite negative digits exponent => .ok (finite (!negative && digits != 0) digits exponent).rounded
  | none, infinite negative => .ok (infinite (!negative))
  | none, x => .ok x

def absolute (x : Decimal) : Except DecimalError Decimal :=
  match passNaN? [x], x with
  | some r, _ => r
  | none, finite _ digits exponent => .ok (finite false digits exponent).rounded
  | none, infinite _ => .ok (infinite false)
  | none, x => .ok x

end Decimal

end Conformance
