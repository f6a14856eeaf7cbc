import Conformance.Table
import Conformance.Value

/-!
# Names known from the start

The class names that signatures are written with, the native classes and modules that are found under
their own names, and the constants that can be looked up.
-/

namespace Conformance

/-- What a type name stands for. -/
inductive Target where
  | ofClass (c : ClassId)
  | ofModule (name : String)
  deriving DecidableEq, Repr, Inhabited

namespace Target

def toValue : Target → Value
  | ofClass c => .classObject c
  | ofModule name => .moduleObject name

def written : Target → String
  | ofClass c => c.written
  | ofModule name => "<module '" ++ name ++ "'>"

def ofValue? : Value → Option Target
  | .classObject c => some (ofClass c)
  | .moduleObject name => some (ofModule name)
  | _ => none

end Target

namespace Names

def coreClasses : Table ClassId := [
  ("Object", .builtin "object"), ("BasicObject", .builtin "object"), ("Integer", .builtin "int"),
  ("Float", .builtin "float"), ("Complex", .builtin "complex"),
  ("Rational", ⟨"fractions", "Fraction"⟩), ("Numeric", ⟨"numbers", "Number"⟩),
  ("BigDecimal", ⟨"decimal", "Decimal"⟩), ("String", .builtin "str"), ("Symbol", .builtin "str"),
  ("Array", .builtin "list"), ("Hash", .builtin "dict"), ("Set", .builtin "set"),
  ("Range", .builtin "range"), ("NilClass", .builtin "NoneType"), ("NoneType", .builtin "NoneType"),
  ("Proc", .container "Callable"), ("Method", .builtin "method"), ("Module", .builtin "module"),
  ("Class", .builtin "type"), ("IO", ⟨"io", "IOBase"⟩), ("Exception", .builtin "Exception"),
  ("StandardError", .builtin "Exception"), ("Enumerator", .container "Iterator"),
  ("Enumerable", .container "Iterable"), ("Time", ⟨"datetime", "datetime"⟩),
  ("Date", ⟨"datetime", "date"⟩), ("Regexp", ⟨"re", "Pattern"⟩), ("MatchData", ⟨"re", "Match"⟩),
  ("Pathname", ⟨"pathlib", "PurePath"⟩), ("Thread", ⟨"threading", "Thread"⟩)]

/-- Built-in classes that are found under their own name. -/
def builtinClasses : List String := [
  "int", "float", "complex", "str", "bytes", "bytearray", "memoryview", "list", "tuple", "dict",
  "set", "frozenset", "range", "bool", "object", "type", "slice", "property", "enumerate", "zip",
  "map", "filter", "reversed", "super", "staticmethod", "classmethod", "BaseException",
  "Exception", "ValueError", "TypeError", "KeyError", "IndexError", "LookupError", "ArithmeticError",
  "ZeroDivisionError", "RuntimeError", "StopIteration", "KeyboardInterrupt", "SystemExit",
  "OSError", "AssertionError", "AttributeError", "NotImplementedError", "RecursionError"]

/-- Abstract container classes that are found under their own name. -/
def containerClasses : List String := [
  "Iterable", "Iterator", "Generator", "Reversible", "Sized", "Container", "Collection", "Callable",
  "Hashable", "Mapping", "MutableMapping", "Sequence", "MutableSequence", "ByteString",
  "Set", "MutableSet", "MappingView", "KeysView", "ItemsView", "ValuesView", "Awaitable", "Coroutine",
  "AsyncIterable", "AsyncIterator", "AsyncGenerator"]

def qualifiedClasses : Table ClassId := [
  ("IOError", .builtin "OSError"), ("collections.OrderedDict", ⟨"collections", "OrderedDict"⟩),
  ("collections.deque", ⟨"collections", "deque"⟩),
  ("fractions.Fraction", ⟨"fractions", "Fraction"⟩), ("decimal.Decimal", ⟨"decimal", "Decimal"⟩),
  ("numbers.Number", ⟨"numbers", "Number"⟩), ("datetime.date", ⟨"datetime", "date"⟩),
  ("collections.abc.Mapping", .container "Mapping"), ("collections.abc.Sized", .container "Sized"),
  ("builtins.int", .builtin "int"), ("types.MappingProxyType", .builtin "mappingproxy")]

def modules : List String := ["math", "operator", "collections", "string"]

/-- The class or module found under a name without being registered. -/
def target? (name : String) : Option Target :=
  if builtinClasses.contains name then some (.ofClass (.builtin name))
  else if containerClasses.contains name then some (.ofClass (.container name))
  else if modules.contains name then some (.ofModule name)
  else (qualifiedClasses.find? name).map .ofClass

/-- Built-in functions that are found under their own name. -/
def builtinFunctions : List String := ["len", "abs", "callable", "repr", "isinstance", "sorted"]

def positive (mantissa : Nat) (exponent : Int) : Value := .float (.finite false mantissa exponent)

def qualifiedConstants : Table Value := [
  ("math.pi", positive 7074237752028440 (-51)), ("math.pi.real", positive 7074237752028440 (-51)),
  ("math.e", positive 6121026514868073 (-51)), ("math.tau", positive 7074237752028440 (-50)),
  ("math.inf", .float (.infinite false)), ("string.digits", .str "0123456789"), ("os.sep", .str "/"),
  ("sys.maxsize", .int 9223372036854775807), ("builtins.True", .bool true), ("builtins.None", .null),
  ("collections.abc", .moduleObject "collections.abc")]

def constant? (name : String) : Option Value :=
  if name.contains '.' then
    match qualifiedConstants.find? name with
    | some v => some v
    | none => (qualifiedClasses.find? name).map .classObject
  else if name == "True" then some (.bool true)
  else if name == "False" then some (.bool false)
  else if name == "None" then some .null
  else if builtinFunctions.contains name then some (.builtin name)
  else if builtinClasses.contains name then some (.classObject (.builtin name))
  else if name == "IOError" then some (.classObject (.builtin "OSError"))
  else none

end Names

end Conformance
