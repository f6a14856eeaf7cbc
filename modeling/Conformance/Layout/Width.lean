import Conformance.Text.Printable

/-!
# Width of characters

How many columns a character takes on a fixed-width screen: none for controls and combining marks,
two for wide East Asian characters and pictures, one for all others.
-/

namespace Conformance.Layout

/-- Characters outside ASCII that take no column, as runs. -/
def zeroWidthRuns : List Nat := [
  640,112,275,7,263,45,1,1,1,2,1,2,1,1,72,11,48,21,16,1,101,7,2,6,2,2,1,4,35,1,30,27,91,11,58,9,9,1,24,4,1,9,1,3,1,
  5,43,3,60,8,42,24,1,32,55,1,1,1,4,8,4,1,3,7,10,2,29,1,58,1,4,4,8,1,20,2,26,1,2,2,57,1,4,2,4,2,2,3,3,1,30,2,3,1,11,
  2,57,1,4,5,1,2,4,1,20,2,22,6,1,1,58,1,2,1,1,4,8,1,7,2,11,2,30,1,61,1,12,1,50,1,3,1,55,1,1,3,5,3,1,4,7,2,11,2,29,1,
  58,1,2,1,6,1,5,2,20,2,28,2,57,2,4,4,8,1,20,2,29,1,72,1,7,3,1,1,90,1,2,7,12,8,98,1,2,9,11,6,74,2,27,1,1,1,1,1,55,
  14,1,5,1,2,5,11,1,36,9,1,102,4,1,6,1,2,2,2,25,2,4,3,16,4,13,1,2,2,6,1,15,1,703,3,946,3,29,2,30,2,30,2,64,2,1,7,8,
  1,2,11,9,1,45,3,1,1,117,2,34,1,118,3,4,2,9,1,6,3,219,2,2,1,58,1,1,7,1,1,1,1,2,8,6,10,2,1,48,31,49,4,48,1,1,5,1,1,
  5,1,40,9,12,2,32,4,2,2,1,3,56,1,1,2,3,1,1,3,58,8,2,2,152,3,1,13,1,7,4,1,6,1,3,2,198,64,523,5,24,7,49,4,108,33,
  3070,3,141,1,96,32,554,4,107,2,30164,4,1,10,32,2,80,2,272,1,3,1,4,1,25,2,5,1,151,2,26,18,13,1,38,8,25,11,46,3,48,
  1,2,4,2,2,39,1,67,6,2,2,2,2,12,1,8,1,47,1,51,1,1,3,2,2,5,2,1,1,42,2,8,1,238,1,2,1,4,1,20272,1,737,16,16,16,973,1,
  226,1,149,5,1670,3,1,2,5,4,40,3,4,1,165,2,573,4,387,2,153,11,49,4,123,1,54,15,41,1,2,2,10,3,49,4,2,2,7,1,61,3,36,
  5,1,8,62,1,12,2,52,9,10,4,2,1,95,3,2,1,1,2,6,1,160,1,3,8,21,2,57,2,3,1,37,7,3,5,195,8,2,3,1,1,23,1,84,6,1,1,4,2,1,
  2,238,4,6,2,1,2,27,2,85,8,2,1,1,2,106,1,1,1,2,6,1,1,101,3,2,4,1,5,259,9,1,2,256,2,1,1,4,1,144,4,2,2,4,1,32,10,40,
  6,2,4,8,1,9,6,2,3,46,13,1,2,406,7,1,6,1,1,82,22,2,7,1,2,1,2,122,6,3,1,1,2,1,7,1,1,72,2,3,1,1,1,347,2,19451,5,59,7,
  1048,1,63,4,81,1,19640,2,4705,46,2,23,544,3,17,8,2,7,30,4,148,3,1979,55,4,50,8,1,14,1,22,5,1,15,1360,7,1,17,2,7,1,
  2,1,5,261,7,375,1,61,4,1504,7,109,7,792501,240]

/-- Printable characters that take two columns, as runs. -/
def wideRuns : List Nat := [
  4224,96,4538,2,13,2,190,4,3,1,2,1,521,2,21,2,50,12,43,1,19,1,13,1,8,2,17,2,5,2,8,1,5,1,21,1,7,2,1,1,4,1,2,1,7,1,4,
  2,28,1,35,1,1,1,4,3,1,1,61,3,24,1,14,1,859,2,51,1,4,1,810,447,2,519,8,7024,64,22215,1177,29,643,11172,8540,474,
  822,92,149,96,127,7,28665,17180,15624,1,202,1,190,1,2,10,101,289,12,9,1,70,1,22,12,43,4,5,12,17,3,1,3,71,1,1,1,
  187,2,63,13,4,1,24,18,1,26,2,13,1,86,85,48,70,6,1,3,3,2,11,11,2,7,9,227,17,283,47,1,10,1,185,112,135,1289,70475]

/-- Unprintable characters that take one column, as runs. -/
def narrowRuns : List Nat := [
  32,14,1362,222,49,1,384,2,80,1,3485,1,397,1,2033,11,36,49,4,1,1,10,49040,6400,1535,1,249,3,4289,1,15,1,9058,9,
  34919,4,5327,8,798342,1,30,96,65408,65534,2,65534]

/-- The columns that a character takes. -/
def charWidth (c : Char) : Nat :=
  let n := c.toNat
  if n < 32 || (127 ≤ n && n < 160) then 0
  else if n < 160 then 1
  else if Text.inRuns zeroWidthRuns c then 0
  else if Text.inRuns wideRuns c || !Text.isPrintable c && !Text.inRuns narrowRuns c then 2
  else 1

/-- The columns that a text takes. -/
def width : List Char → Nat
  | [] => 0
  | c :: cs => charWidth c + width cs

end Conformance.Layout
