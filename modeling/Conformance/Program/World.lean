import Conformance.Program

/-!
# State of a running program

The cells that hold whatever can change while others hold it (shared objects, one-shot iterators and
streams) and whatever equals nothing but itself, the names of shared objects, the number of scripted calls
made, and the calls of the block of the invocation under way.

Such an object is put in a cell of its own when it is made (`keep`), so no cell holds a cell.  `resolve` looks
at what a value is now, one cell deep; `view` replaces every cell in it by what is there.
-/

namespace Conformance

/-- An error raised by a program. -/
structure Raised where
  error : ClassId
  args : List Value := []
  deriving Inhabited

namespace Raised

def toValue (r : Raised) : Value := .error r.error r.args

def builtin (name message : String) : Raised := ⟨.builtin name, [.str message]⟩

def typeError (message : String) : Raised := builtin "TypeError" message

/-- The error of writing an integer that has too many digits. -/
def tooManyDigits : Raised := builtin "ValueError" (Text.tooManyDigits "")

end Raised

/-- One call of a block: what it was given and how it ended. -/
structure BlockCall where
  args : List Value
  keywords : List (String × Value) := []
  outcome : Except Raised Value
  deriving Inhabited

/-- The state of a running program. -/
structure World where
  cells : List Value := []
  /-- The shared objects, the latest of a name first. -/
  shared : List (String × Value) := []
  calls : Nat := 0
  blockCalls : List BlockCall := []
  deriving Inhabited

/-- A computation of a program: it may change the state, and ends with a value or an error. -/
abbrev Run (α : Type) := ExceptT Raised (StateM World) α

namespace Value

def isCell : Value → Bool
  | cell _ => true
  | _ => false

mutual

/-- A value with every cell replaced. -/
def substitute (contents : Nat → Value) : Value → Value
  | cell i => contents i
  | sequence kind items => sequence kind (substituteAll contents items)
  | mapping kind entries => mapping kind (substituteEntries contents entries)
  | iterator kind rest => iterator kind (substituteAll contents rest)
  | standIn kind v => standIn kind (v.substitute contents)
  | block v => block (v.substitute contents)
  | traced v => traced (v.substitute contents)
  | error c args => error c (substituteAll contents args)
  | object c core attributes =>
    object c (substituteOption contents core) (substituteAttributes contents attributes)
  | v => v

/-- A list of values with every cell replaced. -/
def substituteAll (contents : Nat → Value) : List Value → List Value
  | [] => []
  | v :: vs => v.substitute contents :: substituteAll contents vs

/-- Entries with every cell replaced. -/
def substituteEntries (contents : Nat → Value) : List (Value × Value) → List (Value × Value)
  | [] => []
  | (k, v) :: es => (k.substitute contents, v.substitute contents) :: substituteEntries contents es

/-- An optional value with every cell replaced. -/
def substituteOption (contents : Nat → Value) : Option Value → Option Value
  | none => none
  | some v => some (v.substitute contents)

/-- Attributes with every cell replaced. -/
def substituteAttributes (contents : Nat → Value) : List (String × Value) → List (String × Value)
  | [] => []
  | (n, v) :: as => (n, v.substitute contents) :: substituteAttributes contents as

end

end Value

namespace World

/-- What is in a cell. -/
def held (w : World) (i : Nat) : Value := ((w.cells[i]?).filter (!·.isCell)).getD .null

/-- What is in a cell, through at most `depth` further cells. -/
def contents (w : World) : (depth : Nat) → Nat → Value
  | 0, i => .cell i
  | depth + 1, i => (w.held i).substitute (w.contents depth)

def view (w : World) (v : Value) : Value := v.substitute (w.contents (w.cells.length + 1))

/-- The outermost shape of a value: a cell is looked into. -/
def resolve (w : World) : Value → Value
  | .cell i => w.held i
  | v => v

/-- Are two values the same object, or equal as they stand now? -/
def same (w : World) (a b : Value) : Bool := a.equal b || (w.view a).equal (w.view b)

/-- Changes what is in a cell; other values are left as they are, for nobody else holds them. -/
def update (w : World) (v : Value) (f : Value → Value) : World :=
  match v with
  | .cell i => { w with cells := w.cells.modify i f }
  | _ => w

/-- A value in a cell of its own; one that is in a cell stays there. -/
def keep (w : World) (v : Value) : Value × World :=
  match v with
  | .cell i => (.cell i, w)
  | v => (.cell w.cells.length, { w with cells := w.cells ++ [v] })

/-- The state with one more shared object. -/
def share (w : World) (name : String) (v : Value) : World :=
  let (v, w) := if v.isMutable then w.keep v else (v, w)
  { w with shared := (name, v) :: w.shared }

end World

end Conformance
