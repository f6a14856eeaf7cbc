import Conformance.Text.Digit
import Conformance.Text.Space

/-!
# Integers as text

An integer setting may have white space around it, but no information separators, a sign, decimal
digits of any script, and single underscores between digits.
-/

namespace Conformance.Text

/-- Is this white space that may stand around an integer? -/
def isMargin (c : Char) : Bool := isSpace c && !(28 ≤ c.toNat && c.toNat ≤ 31)

/-- Characters without the white space around them. -/
def trimMargins (cs : List Char) : List Char :=
  ((cs.dropWhile isMargin).reverse.dropWhile isMargin).reverse

def asciiDigit (c : Char) : Char := ((digitValue? c).map fun d => Char.ofNat (48 + d)).getD c

/-- Digits with at most one underscore between two of them. -/
def digitGroups? : (afterDigit : Bool) → List Char → Option (List Char)
  | true, [] => some []
  | false, [] => none
  | afterDigit, c :: cs =>
    if isDigit c then (digitGroups? true cs).map (c :: ·)
    else if c == '_' && afterDigit then digitGroups? false cs
    else none

/-- The integer that a text denotes, and the number of its digits. -/
def readInteger? (s : String) : Option (Int × Nat) :=
  let (negative, rest) := match trimMargins s.toList with
    | '-' :: rest => (true, rest)
    | '+' :: rest => (false, rest)
    | rest => (false, rest)
  (digitGroups? false rest).map fun digits =>
    let n : Int := readDigits digits
    (if negative then -n else n, digits.length)

/-- The value of a digit in bases above ten: a letter counts on from ten. -/
def baseDigit? (c : Char) : Option Nat :=
  let c := c.toLower
  match digitValue? c with
  | some d => some d
  | none => if 'a' ≤ c && c ≤ 'z' then some (c.toNat - 87) else none

/-- The number that digits of a base denote, with at most one underscore between two of them, and how many
digits there are. -/
def readBaseDigits? (base : Nat) : (afterDigit : Bool) → (value digits : Nat) → List Char → Option (Nat × Nat)
  | afterDigit, value, digits, [] => if afterDigit then some (value, digits) else none
  | afterDigit, value, digits, c :: cs =>
    if c == '_' then if afterDigit then readBaseDigits? base false value digits cs else none
    else
      match baseDigit? c with
      | some d =>
        if d < base then readBaseDigits? base true (value * base + d) (digits + 1) cs else none
      | none => none

/-- The bases that a mark after a zero stands for. -/
def markedBase? (c : Char) : Option Nat := [('x', 16), ('o', 8), ('b', 2)].lookup c.toLower

/-- The digits of an integer without sign, and their base.  Base 0 stands for that of the mark, or ten where
there is none; a mark of the very base may be there too, and an underscore after it. -/
def splitMark (base : Nat) (cs : List Char) : Nat × List Char :=
  match cs with
  | '0' :: c :: rest =>
    match markedBase? c with
    | some b =>
      if base == 0 || base == b then
        (b, match rest with
          | '_' :: r => r
          | r => r)
      else (base, cs)
    | none => (if base == 0 then 10 else base, cs)
  | cs => (if base == 0 then 10 else base, cs)

/-- The integer that characters denote in a base from 2 to 36, or in the base that its mark stands for, and
the number of its digits.  Without a mark it may not begin with a zero, unless it is zero. -/
def readInBase? (base : Nat) (cs : List Char) : Option (Int × Nat) :=
  let (negative, rest) := match trimMargins cs with
    | '-' :: rest => (true, rest)
    | '+' :: rest => (false, rest)
    | rest => (false, rest)
  let (actual, digits) := splitMark base rest
  (readBaseDigits? actual false 0 0 digits).bind fun (n, count) =>
    if base == 0 && n != 0 && digits.length == rest.length && rest.head? == some '0' then none
    else some (if negative then -(n : Int) else n, count)

end Conformance.Text
