import Conformance.Value

/-!
# Values in normal form

Quotients in lowest terms, and paths without the parts that do not matter.
-/

namespace Conformance

namespace Value

/-- A quotient in lowest terms, the sign on its numerator. -/
def fractionOf (num den : Int) : Value :=
  let g := Nat.gcd num.natAbs den.natAbs
  let sign : Int := if den < 0 then -1 else 1
  fraction (sign * num / g) (den.natAbs / g)

/-- The slashes that a path starts with, in normal form: exactly two stay, more are one. -/
def leadingSlashes (count : Nat) : String :=
  if count == 0 then "" else if count == 2 then "//" else "/"

/-- A path without its single dots and its doubled and trailing slashes; the empty path is a dot. -/
def pathOf (text : String) : Value :=
  let parts := (text.splitOn "/").filter fun part => !part.isEmpty && part != "."
  let normal := leadingSlashes (text.toList.takeWhile (· == '/')).length ++ "/".intercalate parts
  path (if normal.isEmpty then "." else normal)

end Value

end Conformance
