import Conformance.Text.Identifier

/-!
# Alphanumeric characters

`isAlphanumeric` holds of the letters and of the characters with a numeric value, in every script
(general categories L and N of the character database, ideographic numbers included).
-/

namespace Conformance.Text

/-- Numbers outside ASCII that are not decimal digits, as runs. -/
def numberRuns : List Nat := [
  50,2,5,1,2,3,699,1,1657,6,376,6,120,3,133,7,217,7,17,9,186,1,127,1,118,10,1077,20,1139,10,480,1,1685,1,3,6,6,10,
  198,58,726,60,78,22,630,30,1385,1,305,1,866,4,138,10,30,8,1,15,32,10,39,15,30064,6,21544,6,406,2,116,5,1,9,287,2,
  359,45,65,4,17,2,341,27,36,4,1332,8,25,7,39,9,75,33,160,20,2,46,64,9,52,2,30,3,75,5,104,8,24,8,41,7,330,6,352,31,
  158,10,42,4,112,7,134,20,379,20,1349,2,430,9,871,19,851,21,19334,7,798,23,25673,20,108,25,5454,9,929,59,1,3,1,4,
  76,45,1,15,962,13]

/-- The first characters of identifiers that are no letters. -/
def letterlike : List Nat := [0x1885, 0x1886, 0x2118, 0x212E]

/-- Letters and numbers of every script. -/
def isAlphanumeric (c : Char) : Bool :=
  if c.toNat < 128 then c.isAlphanum
  else isIdentifierStart c && !letterlike.contains c.toNat || isDigit c || inRuns numberRuns c

end Conformance.Text
