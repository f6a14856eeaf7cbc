import Conformance.Program.Native

/-!
# Arguments of native functions, methods and classes

Each of them looks at how many arguments it is given, and under which names, before it does anything
(`Arity`), and complains in the way of its kind.
-/

namespace Conformance

/-- How a native function, method or class takes its arguments. -/
inductive Arity where
  /-- It stands for an operator and takes this many. -/
  | operator (n : Nat)
  /-- It takes none. -/
  | nullary
  /-- It takes one. -/
  | unary
  /-- It takes from `least` to `most` of them, by position. -/
  | positional (least most : Nat)
  /-- It takes them by position or by name, the first `least` always; one without a name only by position. -/
  | keyworded (least : Nat) (names : List String)
  /-- Its parameters have names, as those of scripts do; the optional ones come last. -/
  | script (required optional : List String)
  /-- It takes any number of them by position, as scripts do. -/
  | variadic
  /-- It takes none at all, and says so of its class. -/
  | empty
  /-- It looks at its arguments itself. -/
  | free
  deriving DecidableEq, Repr, Inhabited

namespace Arity

/-- The classes whose methods are written as scripts are. -/
def isScripted (c : ClassId) : Bool :=
  c.home == (ClassId.standIn "").home || c.home == "fractions" || c.home == "pathlib"

/-- The operators that some native classes answer by a method of their own. -/
def ownOperators : List (String × List ClassId) :=
  [("__contains__", [.builtin "dict", .builtin "set", .builtin "frozenset"]),
    ("__getitem__", [.builtin "list", .builtin "dict"])]

def ofMethod (owner : ClassId) (name : String) : Arity :=
  if ["sort", "read", "__call__"].contains name then free
  else if name == "split" then keyworded 0 ["sep", "maxsplit"]
  else if isScripted owner then
    script (if name == "__getitem__" then ["key"] else if name == "write" then ["data"] else []) []
  else if ["append", "write"].contains name then unary
  else if ["upper", "keys", "bit_length", "fileno", "__bytes__", "__reversed__"].contains name then nullary
  else if ["__contains__", "__getitem__"].contains name then
    if ((ownOperators.lookup name).getD []).contains owner then unary else operator 1
  else operator 0

/-- How a native class takes the arguments that its instances are made from. -/
def ofClass (c : ClassId) : Arity :=
  if c.home == (ClassId.standIn "").home then
    match c.name with
    | "BlankSlate" => empty
    | "ToArray" => variadic
    | "ToHash" => script [] ["mapping"]
    | "ToIO" => script ["io"] []
    | _ => script [] ["value"]
  else
    match c.name with
    | "object" => empty
    | "bool" | "float" | "list" | "tuple" | "set" | "frozenset" => positional 0 1
    | "range" => positional 1 3
    | "int" => keyworded 0 ["", "base"]
    | "str" => keyworded 0 ["object", "encoding", "errors"]
    | "bytes" | "bytearray" => keyworded 0 ["source", "encoding", "errors"]
    | "complex" => keyworded 0 ["real", "imag"]
    | "memoryview" => keyworded 1 ["object"]
    | "deque" => keyworded 0 ["iterable", "maxlen"]
    | "Decimal" => keyworded 0 ["value", "context"]
    | "Fraction" => script [] ["numerator", "denominator"]
    | "PurePath" | "PurePosixPath" => variadic
    | _ => free

def counted (n : Nat) (thing : String) : String := s!"{n} {thing}" ++ if n == 1 then "" else "s"

/-- What is wrong with arguments that may have names, where what is called may have none itself. -/
def keywordedComplaint? (least : Nat) (names : List String) (name : String) (given : Nat)
    (keywords : List String) : Option String :=
  let label := if name.isEmpty then "function" else name ++ "()"
  let total := given + keywords.length
  let missing := (names.zipIdx.take least).find? fun n => given ≤ n.2 && !keywords.contains n.1
  let doubled := (names.zipIdx.take given).find? fun n => keywords.contains n.1
  if names.length < total then
    some (s!"{label} takes at most " ++ counted names.length (if given == 0 then "keyword argument" else "argument")
      ++ s!" ({total} given)")
  else
    match missing, doubled, keywords.find? fun k => !names.contains k with
    | some (name, i), _, _ => some s!"{label} missing required argument '{name}' (pos {i + 1})"
    | none, some (name, i), _ => some s!"argument for {label} given by name ('{name}') and position ({i + 1})"
    | none, none, some k =>
      some (s!"'{k}' is an invalid keyword argument for " ++ (if name.isEmpty then "this " else "") ++ label)
    | none, none, none => none

/-- What is wrong with the arguments of a script, which has a receiver besides them. -/
def scriptComplaint? (required optional : List String) (label : String) (given : Nat)
    (keywords : List String) : Option String :=
  let names := required ++ optional
  let missing := (required.drop given).filter (!keywords.contains ·)
  match keywords.find? (!names.contains ·), (names.take given).find? keywords.contains with
  | some k, _ => some s!"{label}() got an unexpected keyword argument '{k}'"
  | none, some k => some s!"{label}() got multiple values for argument '{k}'"
  | none, none =>
    if names.length < given then
      let most := counted (names.length + 1) "positional argument"
      some (s!"{label}() takes " ++ (if optional.isEmpty then most else s!"from {required.length + 1} to " ++ most)
        ++ s!" but {given + 1} were given")
    else missing.head?.map fun k => s!"{label}() missing 1 required positional argument: '{k}'"

/-- What is wrong with the arguments, where `label` is the full name of what is called and `name` the
short one. -/
def complaint? (a : Arity) (label name : String) (given : Nat) (keywords : List String) : Option String :=
  match a with
  | operator n =>
    if !keywords.isEmpty then some s!"wrapper {name}() takes no keyword arguments"
    else if given == n then none
    else some ("expected " ++ counted n "argument" ++ s!", got {given}")
  | nullary =>
    if !keywords.isEmpty then some s!"{label}() takes no keyword arguments"
    else if given == 0 then none
    else some s!"{label}() takes no arguments ({given} given)"
  | unary =>
    if !keywords.isEmpty then some s!"{label}() takes no keyword arguments"
    else if given == 1 then none
    else some (Program.oneArgumentMessage label given)
  | positional least most =>
    if !keywords.isEmpty then some s!"{name}() takes no keyword arguments"
    else if given < least then some (s!"{name} expected at least " ++ counted least "argument" ++ s!", got {given}")
    else if most < given then some (s!"{name} expected at most " ++ counted most "argument" ++ s!", got {given}")
    else none
  | keyworded least names => keywordedComplaint? least names name given keywords
  | script required optional => scriptComplaint? required optional label given keywords
  | variadic => keywords.head?.map fun k => s!"{label}() got an unexpected keyword argument '{k}'"
  | empty => if given == 0 && keywords.isEmpty then none else some s!"{name}() takes no arguments"
  | free => none

def names : Arity → List String
  | keyworded _ names => names
  | script required optional => required ++ optional
  | _ => []

/-- The argument at a position, whichever way it is given. -/
def argument? (a : Arity) (args : List Value) (keywords : List (String × Value)) (i : Nat) : Option Value :=
  (args[i]?).orElse fun _ => (a.names[i]?).bind (keywords.lookup ·)

/-- The arguments of a script by position, those with names after the others. -/
def ordered (a : Arity) (args : List Value) (keywords : List (String × Value)) : List Value :=
  match a with
  | script required optional => args ++ ((required ++ optional).drop args.length).filterMap (keywords.lookup ·)
  | _ => args

end Arity

end Conformance
