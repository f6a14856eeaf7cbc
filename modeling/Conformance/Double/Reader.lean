import Conformance.Double.Shortest
import Conformance.Text.Integer

/-!
# Reading doubles

Decimal text with an optional sign, fraction and exponent, and the names of the special values.
-/

namespace Conformance.Double

/-- The natural number that ASCII digits denote. -/
def digitsValue (ds : List Char) : Nat := ds.foldl (fun n c => 10 * n + (c.toNat - 48)) 0

/-- The double nearest to `units * 10 ^ e`.  Exponents far outside the range of doubles are decided
without computing the power. -/
def ofScientific (negative : Bool) (units : Nat) (e : Int) : Double :=
  if units = 0 then round negative 0 1
  else if 400 < e then .infinite negative
  else if e + (decimalDigits units).length < -400 then round negative 0 1
  else ofDecimal negative units e

/-- The exponent part of a decimal text: nothing, or a mark, an optional sign and digits. -/
def readExponent? : List Char → Option Int
  | [] => some 0
  | c :: cs =>
    if c != 'e' && c != 'E' then none else
    let (sign, ds) : Int × List Char := match cs with
      | '-' :: ds => (-1, ds)
      | '+' :: ds => (1, ds)
      | ds => (1, ds)
    if ds.isEmpty || !ds.all Char.isDigit then none else some (sign * digitsValue ds)

/-- A decimal text without its sign. -/
def readUnsigned? (negative : Bool) (cs : List Char) : Option Double :=
  if cs == "inf".toList then some (.infinite negative)
  else if cs == "nan".toList then some .nan
  else
    let whole := cs.takeWhile Char.isDigit
    let rest := cs.dropWhile Char.isDigit
    let (part, rest) := match rest with
      | '.' :: r => (r.takeWhile Char.isDigit, r.dropWhile Char.isDigit)
      | r => ([], r)
    if whole.isEmpty && part.isEmpty then none else
    (readExponent? rest).map fun e =>
      ofScientific negative (digitsValue (whole ++ part)) (e - part.length)

/-- Reads a double; `none` when the text is no decimal number. -/
def read? (s : String) : Option Double :=
  match s.toList with
  | '-' :: cs => readUnsigned? true cs
  | '+' :: cs => readUnsigned? false cs
  | cs => readUnsigned? false cs

/-- Characters without the underscores between two digits; `none` when an underscore stands elsewhere. -/
def dropUnderscores? : (afterDigit : Bool) → List Char → Option (List Char)
  | _, [] => some []
  | afterDigit, '_' :: c :: cs => if afterDigit && c.isDigit then dropUnderscores? afterDigit (c :: cs) else none
  | _, ['_'] => none
  | _, c :: cs => (dropUnderscores? c.isDigit cs).map (c :: ·)

/-- Reads a double as it may be given by hand: with white space around it, digits of any script, single
underscores between digits, and the special values in full and of any case. -/
def readLoose? (s : String) : Option Double :=
  let plain := (Text.trimMargins s.toList).map fun c => (Text.asciiDigit c).toLower
  let spelled (cs : List Char) : List Char := if cs == "infinity".toList then "inf".toList else cs
  (dropUnderscores? false plain).bind fun cs =>
    match cs with
    | '-' :: cs => readUnsigned? true (spelled cs)
    | '+' :: cs => readUnsigned? false (spelled cs)
    | cs => readUnsigned? false (spelled cs)

end Conformance.Double
