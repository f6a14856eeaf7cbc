import Conformance.Program.Conversion

/-!
# Making objects

Blocks, errors and instances of classes.  Whatever equals nothing but itself gets a cell when it is made.
-/

namespace Conformance

namespace Program

/-- A block around something that has to be callable. -/
def blockOf (p : Program) (v : Value) : Run Value := do
  let w := (← get).resolve v
  if p.isCallable w then return .block v
  else typeError s!"Block expects a callable, got {w.classOf.name}"

/-! ## Instances -/

/-- The native classes whose instances are filled by their initialiser. -/
def filledLater : List ClassId := [.builtin "list", .builtin "dict", .builtin "set", .builtin "bytearray",
  ⟨"collections", "deque"⟩, ⟨"collections", "OrderedDict"⟩]

/-- The errors that take arguments by name, and the names. -/
def errorKeywords : List (String × List String) :=
  [("AttributeError", ["name", "obj"]), ("NameError", ["name"]), ("ImportError", ["name", "path"])]

def systemErrors : List (Int × String) :=
  [(1, "PermissionError"), (2, "FileNotFoundError"), (3, "ProcessLookupError"), (4, "InterruptedError"),
    (10, "ChildProcessError"), (11, "BlockingIOError"), (13, "PermissionError"), (17, "FileExistsError"),
    (20, "NotADirectoryError"), (21, "IsADirectoryError"), (32, "BrokenPipeError"),
    (103, "ConnectionAbortedError"), (104, "ConnectionResetError"), (108, "BrokenPipeError"),
    (110, "TimeoutError"), (111, "ConnectionRefusedError"), (114, "BlockingIOError"), (115, "BlockingIOError")]

/-- The class of an error with these arguments: an error of the system that has a number and a text is of the
class for that number. -/
def errorClass (c : ClassId) : List Value → ClassId
  | number :: _ :: rest =>
    if c == .builtin "OSError" && rest.length ≤ 3 then
      .builtin ((number.integer?.bind (systemErrors.lookup ·)).getD c.name)
    else c
  | _ => c

def errorOf (p : Program) (c : ClassId) (args : List Value) (keywords : List (String × Value)) : Run Value := do
  match errorKeywords.find? fun e => p.isSubclass c (.builtin e.1) with
  | none => if !keywords.isEmpty then typeError s!"{c.name}() takes no keyword arguments"
  | some (name, known) =>
    match keywords.find? (!known.contains ·.1) with
    | some (k, _) => typeError s!"'{k}' is an invalid keyword argument for {name}()"
    | none => pure ()
  return .error (errorClass c args) args

/-- A new instance of a declared class before it is initialised.  It is built from a native value where
the class extends a native one. -/
def bareInstance (p : Program) (call : Caller) (c : ClassId) (args : List Value)
    (keywords : List (String × Value)) (initialised : Bool) : Run Value := do
  if p.isSubclass c (.builtin "BaseException") then
    if initialised then return .error c args else return ← p.errorOf c args keywords
  match (p.line c).find? fun k => (p.class? k).isNone && k != NativeClass.root with
  | some k =>
    let later := initialised && filledLater.contains k
    let core ← p.convert call k (if later then [] else args) (if later then [] else keywords)
    return .object c (some core) []
  | none =>
    if initialised || (args.isEmpty && keywords.isEmpty) then return .object c none []
    else typeError s!"{c.name}() takes no arguments"

/-- Initialises an instance by the method that its class declares for it. -/
def initialise (call : Caller) (v : Value) (m : Member) (args : List Value) (keywords : List (String × Value)) :
    Run Value := do
  let method := (bindToInstance ((← get).resolve v) m).withReceiver v
  let r ← call method args keywords
  match (← get).resolve r with
  | .null => return v
  | r => typeError s!"__init__() should return None, not '{r.kindName}'"

/-- Makes an instance of a class.  A declared class may have methods of its own for making its instances and
for initialising them; what is made need not be an instance, and is then left as it is. -/
def construct (p : Program) (call : Caller) (c : ClassId) (args : List Value)
    (keywords : List (String × Value)) : Run Value := do
  match p.class? c with
  | none =>
    if p.isSubclass c (.builtin "BaseException") then do made (← p.errorOf c args keywords)
    else do made (← p.convert call c args keywords)
  | some _ =>
    match p.member? c "__new__", p.member? c "__init__" with
    | some (.declared _ (.method .ofInstance formals code)), init =>
      let v ← call (.bound formals code (.classObject c)) args keywords
      match init with
      | some (.declared _ m) =>
        if p.isInstance ((← get).resolve v) c then initialise call v m args keywords else return v
      | _ => return v
    | _, some (.declared _ m) =>
      let v ← made (← p.bareInstance call c args keywords true)
      initialise call v m args keywords
    | _, _ => do made (← p.bareInstance call c args keywords false)

def withAttributes (attributes : List (String × Value)) : Value → Value
  | .object c core own => .object c core (attributes.reverse ++ own)
  | .error c args => .object c (some (.error c args)) attributes.reverse
  | v => v

/-- Gives attributes to an instance that has just been made. -/
def dress (v : Value) (attributes : List (String × Value)) : Run Value := do
  if attributes.isEmpty then return v
  match v with
  | .cell _ =>
    modify (·.update v (withAttributes attributes))
    return v
  | v => return withAttributes attributes v

/-- The error to raise for an instance, which has to be one. -/
def raisedBy (v : Value) : Run Raised := do
  match ((← get).resolve v) with
  | .error c args | .object c (some (.error _ args)) _ => return ⟨c, args⟩
  | _ => typeError "exceptions must derive from BaseException"

end Program

end Conformance
