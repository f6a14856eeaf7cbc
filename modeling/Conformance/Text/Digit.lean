/-!
# Decimal digits

Every script's decimal digits stand in blocks of ten, `0` first, so a digit's value is its distance
from the start of its block.  `readDigits` reads a row of them as a number.  No integer is read from more of
them than `digitLimit`, or written with more.
-/

namespace Conformance.Text

/-- The code points of the digits zero outside ASCII, one for each block of ten. -/
def digitZeros : Array Nat := #[
  0x660, 0x6F0, 0x7C0, 0x966, 0x9E6, 0xA66, 0xAE6, 0xB66, 0xBE6, 0xC66, 0xCE6, 0xD66, 0xDE6, 0xE50,
  0xED0, 0xF20, 0x1040, 0x1090, 0x17E0, 0x1810, 0x1946, 0x19D0, 0x1A80, 0x1A90, 0x1B50, 0x1BB0,
  0x1C40, 0x1C50, 0xA620, 0xA8D0, 0xA900, 0xA9D0, 0xA9F0, 0xAA50, 0xABF0, 0xFF10, 0x104A0, 0x10D30,
  0x11066, 0x110F0, 0x11136, 0x111D0, 0x112F0, 0x11450, 0x114D0, 0x11650, 0x116C0, 0x11730, 0x118E0,
  0x11950, 0x11C50, 0x11D50, 0x11DA0, 0x16A60, 0x16AC0, 0x16B50, 0x1D7CE, 0x1D7D8, 0x1D7E2, 0x1D7EC,
  0x1D7F6, 0x1E140, 0x1E2F0, 0x1E950, 0x1FBF0]

def digitValue? (c : Char) : Option Nat :=
  if c.toNat < 128 then if c.isDigit then some (c.toNat - 48) else none
  else (digitZeros.find? fun z => z ≤ c.toNat && c.toNat ≤ z + 9).map (c.toNat - ·)

def isDigit (c : Char) : Bool := (digitValue? c).isSome

/-- The number that a row of decimal digits denotes. -/
def readDigits (cs : List Char) : Nat :=
  cs.foldl (fun n c => 10 * n + (digitValue? c).getD 0) 0

/-- The greatest number of decimal digits of an integer. -/
def digitLimit : Nat := 4300

/-- Has the integer few enough digits to be written? -/
@[irreducible]
def isWritable (n : Int) : Bool := n.natAbs < Nat.pow 10 digitLimit

/-- The complaint about an integer with too many digits, and what is said of how many they are. -/
def tooManyDigits (count : String) : String :=
  s!"Exceeds the limit ({digitLimit} digits) for integer string conversion" ++ count
    ++ "; use sys.set_int_max_str_digits() to increase the limit"

end Conformance.Text
