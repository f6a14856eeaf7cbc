import Conformance.Program.Run

/-!
# Using stand-ins

What a stand-in converts to.  The value it holds has to be of the class it stands in for.
-/

namespace Conformance

namespace Program

/-- The complaint about a stand-in that holds a value of another class. -/
def wrongClass {α : Type} (method kind : String) (v : Value) : Run α :=
  typeError s!"{method} returned {kind} (type {v.kindName})"

/-- What is read from a stream of text, how many characters are written after that, and the whole text
then. -/
def useStream (v : Value) : Run Value := do
  match (← get).resolve v with
  | .stream text position =>
    let cs := text.toList
    let read := (cs.drop position).take 2
    let after := position + read.length
    let written := String.ofList (overwritten cs ['+', '+'] after)
    modify (·.update v fun _ => .stream written (after + 2))
    return .sequence .list [.str (String.ofList read), .int 2, .str written]
  | w => throw (.builtin "AttributeError" s!"'{w.kindName}' object has no attribute 'read'")

/-- What a stand-in converts to; there is no result for other values. -/
def use? (p : Program) (v : Value) : Run (Option Value) := do
  match (← get).resolve v with
  | .standIn kind inner =>
    let w := (← get).resolve inner
    match kind, w.core with
    | .toInt, _ => return some (.int (← p.position p.invoke v))
    | .toF, .float x => return some (.float x)
    | .toF, _ => wrongClass "ToF.__float__" "non-float" w
    | .toStr, .str _ => return some w
    | .toStr, _ => wrongClass "__str__" "non-string" w
    | .toBytes, .bytes .bytes _ => return some w
    | .toBytes, _ => wrongClass "__bytes__" "non-bytes" w
    | .toPath, .str _ | .toPath, .bytes .bytes _ => return some w
    | .toPath, _ => typeError s!"expected ToPath.__fspath__() to return str or bytes, not {w.kindName}"
    | .toIO, _ => return some (← useStream inner)
  | .sequence .toArray items =>
    return some (.sequence .list [.int items.length, .sequence .list items])
  | .mapping .toHash entries => return some (.mapping .dict entries)
  | _ => return none

end Program

end Conformance
