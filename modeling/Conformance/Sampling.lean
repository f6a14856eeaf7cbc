import Conformance.Fault

/-!
# Samples of large collections

A collection with more elements than the limit is checked on an evenly strided subset.  The stride is
the double-precision quotient of size and limit, and the `i`-th position the integer part of the
double-precision product `i * stride`.

Collections that can be indexed are sampled by position; other sized collections by going through
them up to the last position.  What has no size is checked on its first elements.  A `Plan` says which of
these is to be done; `Plan.pick` carries it out on elements that are all there.
-/

namespace Conformance

namespace Sampling

variable {α : Type}

def position (size limit i : Nat) : Nat :=
  let stride := Double.round false size limit
  (((Double.ofInt i).mul stride).truncate?.getD 0).toNat

def positions (size limit : Nat) : List Nat := (List.range limit).map (position size limit)

/-- Elements with their positions. -/
def indexed (items : List α) : List (Nat × α) := items.zipIdx.map fun e => (e.2, e.1)

def byPosition (items : List α) (wanted : List Nat) : List (Nat × α) :=
  wanted.filterMap fun i => (items[i]?).map fun x => (i, x)

/-- A sample by going through the elements up to the last wanted position. -/
def byEnumeration (items : List α) (wanted : List Nat) : List (Nat × α) :=
  let last := (wanted.getLast?).getD 0
  (indexed items).filter fun e => decide (e.1 ≤ last) && wanted.contains e.1

/-- No more first elements than this can be asked for. -/
def largestLimit : Int := 9223372036854775807

/-- How a collection can be sampled. -/
inductive Access where
  | byIndex
  | sized
  | unsized
  deriving DecidableEq, Repr, Inhabited

/-- Which elements of a collection to look at, and how to come to them. -/
inductive Plan where
  /-- All of them. -/
  | all
  /-- The first of them, as many as the limit says. -/
  | first (limit : Int)
  /-- Those at some positions, each asked for by its position. -/
  | pickOut (positions : List Nat)
  /-- Those at some positions, by going through the collection up to the last of them. -/
  | goThrough (positions : List Nat)
  deriving DecidableEq, Repr, Inhabited

/-- How to sample a collection.  `size` is what the collection says its size is. -/
def plan (access : Access) (size : Nat) : (limit : Option Int) → Except Fault Plan
  | none => .ok .all
  | some limit =>
    if access == .unsized || (size : Int) ≤ limit then .ok (.first limit)
    else if limit == 0 then .error .emptySample
    else
      let wanted := positions size limit.toNat
      .ok (if access == .byIndex then .pickOut wanted else .goThrough wanted)

/-- How many first elements to look at. -/
def firstCount (limit : Int) : Except Fault Nat :=
  if limit < 0 || largestLimit < limit then .error .limitOutOfRange else .ok limit.toNat

/-- The elements that a plan looks at, with their positions. -/
def Plan.pick (items : List α) : Plan → Except Fault (List (Nat × α))
  | all => .ok (indexed items)
  | first limit => (firstCount limit).map fun n => indexed (items.take n)
  | pickOut wanted => .ok (byPosition items wanted)
  | goThrough wanted =>
    if wanted.isEmpty && !items.isEmpty then .error .negativeSample else .ok (byEnumeration items wanted)

/-- The elements to check, with their positions.  `size` is what the collection says its size is. -/
def sample (access : Access) (size : Nat) (limit : Option Int) (items : List α) :
    Except Fault (List (Nat × α)) :=
  (plan access size limit).bind (·.pick items)

end Sampling

end Conformance
