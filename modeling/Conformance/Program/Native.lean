import Conformance.Program.Attribute
import Conformance.Program.World
import Conformance.Text.Integer
import Conformance.Text.Upper
import Conformance.Value.Arithmetic
import Conformance.Value.Order

/-!
# Native texts and lists

The methods of texts and lists that programs use.
-/

namespace Conformance

namespace Program

def typeError {α : Type} (message : String) : Run α := throw (.typeError message)

/-- The complaint about a wrong number of arguments of a function of one argument. -/
def oneArgumentMessage (name : String) (given : Nat) : String :=
  s!"{name}() takes exactly one argument ({given} given)"

/-- The words of a text between white space, where the last of at most `fuel + 1` words is all the rest. -/
def words (cs : List Char) : (fuel : Nat) → List String
  | 0 =>
    let rest := cs.dropWhile Text.isSpace
    if rest.isEmpty then [] else [String.ofList rest]
  | fuel + 1 =>
    match cs.dropWhile Text.isSpace with
    | [] => []
    | rest =>
      String.ofList (rest.takeWhile fun c => !Text.isSpace c)
        :: words (rest.dropWhile fun c => !Text.isSpace c) fuel

/-- The parts of a text between separators, where the last of at most `most + 1` parts is all the rest. -/
def partsAt (s separator : String) (most : Option Nat) : List String :=
  let parts := s.splitOn separator
  match most with
  | none => parts
  | some n => parts.take n ++ [separator.intercalate (parts.drop n)].filter fun _ => n < parts.length

/-- The parts of a text between separators, or its words when there is none. -/
def splitText (s : String) (separator : Value) (most : Option Nat) : Run Value :=
  match separator with
  | .null => return .sequence .list ((words s.toList (most.getD (s.length + 1))).map .str)
  | .str "" => throw (.builtin "ValueError" "empty separator")
  | .str separator => return .sequence .list ((partsAt s separator most).map .str)
  | v => typeError s!"must be str or None, not {v.kindName}"

/-- The number of binary digits of a number. -/
def bitLength (n : Nat) : Nat := if n = 0 then 0 else n.log2 + 1

/-- A list or deque with one more element at its end. -/
def appended (item : Value) : Value → Value
  | .sequence kind items => .sequence kind (items ++ [item])
  | .object c (some (.sequence kind items)) attributes =>
    .object c (some (.sequence kind (items ++ [item]))) attributes
  | v => v

/-- A list with its elements replaced. -/
def withItems (items : List Value) : Value → Value
  | .sequence kind _ => .sequence kind items
  | .object c (some (.sequence kind _)) attributes => .object c (some (.sequence kind items)) attributes
  | v => v

end Program

end Conformance
