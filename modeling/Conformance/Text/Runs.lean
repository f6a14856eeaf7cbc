/-!
# Character classes as runs

A class of characters outside ASCII is a list of lengths: how many code points from 128 on are outside of the class, how
many after them are inside, and so on by turns.
-/

namespace Conformance.Text

/-- Is the code point inside?  `inside` says whether the first run is. -/
def inRunsFrom (inside : Bool) : List Nat → Nat → Bool
  | [], _ => false
  | run :: runs, n => if n < run then inside else inRunsFrom (!inside) runs (n - run)

def inRuns (runs : List Nat) (c : Char) : Bool := 128 ≤ c.toNat && inRunsFrom false runs (c.toNat - 128)

end Conformance.Text
