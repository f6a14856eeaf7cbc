import Conformance.Class

/-!
# Native classes

What is known of the classes that exist before a program declares its own: their bases, the abstract
classes they are registered with, the methods they define and the special methods they disable.
Abstract classes with a `protocol` also hold of every class that has those special methods.
-/

namespace Conformance

/-- A native class. -/
structure NativeClass where
  id : ClassId
  bases : List ClassId := []
  registered : List ClassId := []
  members : List String := []
  disabled : List String := []
  protocol : List String := []
  abstractMeta : Bool := false
  deriving Inhabited

namespace NativeClass

open ClassId

def root : ClassId := builtin "object"

def metaClass : ClassId := builtin "type"

def abstractMetaClass : ClassId := ⟨"abc", "ABCMeta"⟩

def number : ClassId := ⟨"numbers", "Number"⟩

/-- A built-in class over `object`. -/
def plain (name : String) (members : List String) (registered : List String := [])
    (disabled : List String := []) : NativeClass :=
  { id := builtin name, bases := [root], members, registered := registered.map container, disabled }

/-- A built-in number class. -/
def numeric (name : String) (members : List String) : NativeClass :=
  { id := builtin name, bases := [root], members, registered := [number] }

def abstract (name : String) (bases : List String) (protocol : List String := []) : NativeClass :=
  { id := container name, protocol, abstractMeta := true
    bases := if bases.isEmpty then [root] else bases.map container }

/-- An error class over another. -/
def failure (name base : String) (members : List String := []) : NativeClass :=
  { id := builtin name, bases := [builtin base], members }

/-- A stand-in class over the blank one. -/
def convertible (name : String) (members : List String) : NativeClass :=
  { id := standIn name, bases := [standIn "BlankSlate"], members := "__repr__" :: members }

/-- A class outside the built-in module. -/
def foreign (home name : String) (bases : List ClassId) (members : List String := [])
    (registered : List ClassId := []) : NativeClass :=
  { id := ⟨home, name⟩, bases, members, registered }

def collectionMethods : List String := ["__repr__", "__iter__", "__len__", "__contains__"]

def valueClasses : List NativeClass := [
  { id := root, members := ["__str__", "__repr__", "__hash__"] },
  plain "NoneType" ["__repr__"],
  numeric "int" ["__index__", "__float__", "__repr__", "__hash__", "bit_length"],
  { id := builtin "bool", bases := [builtin "int"], members := ["__repr__"] },
  numeric "float" ["__float__", "__repr__", "__hash__"],
  numeric "complex" ["__repr__", "__hash__"],
  plain "str" (collectionMethods ++ ["__str__", "__hash__", "__getitem__", "upper", "split"]) ["Sequence"],
  plain "bytes" (collectionMethods ++ ["__str__", "__bytes__", "__hash__", "__getitem__"]) ["ByteString"],
  plain "bytearray" (collectionMethods ++ ["__str__", "__getitem__"]) ["MutableSequence", "ByteString"]
    ["__hash__"],
  plain "memoryview" ["__repr__", "__iter__", "__len__", "__hash__", "__getitem__"] ["Sequence"],
  plain "list" (collectionMethods ++ ["__getitem__", "__reversed__", "append", "sort"])
    ["MutableSequence"] ["__hash__"],
  plain "tuple" (collectionMethods ++ ["__hash__", "__getitem__"]) ["Sequence"],
  plain "dict" (collectionMethods ++ ["__getitem__", "__reversed__", "keys"]) ["MutableMapping"]
    ["__hash__"],
  plain "mappingproxy" (collectionMethods ++ ["__str__", "__getitem__", "__reversed__", "keys"])
    ["Mapping"] ["__hash__"],
  plain "set" collectionMethods ["MutableSet"] ["__hash__"],
  plain "frozenset" ("__hash__" :: collectionMethods) ["Set"],
  plain "range" (collectionMethods ++ ["__hash__", "__getitem__", "__reversed__"]) ["Sequence"],
  plain "dict_keys" (collectionMethods ++ ["__reversed__"]) ["KeysView"] ["__hash__"],
  plain "odict_keys" (collectionMethods ++ ["__reversed__"]) ["KeysView"] ["__hash__"],
  plain "list_iterator" ["__iter__", "__next__"],
  plain "generator" ["__repr__", "__iter__", "__next__"] ["Generator"],
  plain "type" ["__repr__", "__call__"],
  plain "module" ["__repr__"],
  plain "builtin_function_or_method" ["__repr__", "__hash__", "__call__"],
  plain "function" ["__repr__", "__call__"],
  plain "method" ["__repr__", "__hash__", "__call__"],
  plain "slice" ["__repr__"] [] ["__hash__"],
  plain "property" [],
  plain "enumerate" ["__iter__", "__next__"],
  plain "zip" ["__iter__", "__next__"],
  plain "map" ["__iter__", "__next__"],
  plain "filter" ["__iter__", "__next__"],
  plain "reversed" ["__iter__", "__next__"],
  plain "super" ["__repr__"],
  plain "staticmethod" ["__repr__", "__call__"],
  plain "classmethod" ["__repr__"]]

def iteratorNames : List String :=
  ["tuple_iterator", "set_iterator", "dict_keyiterator", "odict_iterator", "str_ascii_iterator", "str_iterator",
    "bytes_iterator", "bytearray_iterator", "memory_iterator", "range_iterator"]

def iteratorClasses : List NativeClass :=
  foreign "_collections" "_deque_iterator" [root] ["__iter__", "__next__"]
    :: iteratorNames.map fun name => plain name ["__iter__", "__next__"]

/-- The built-in error classes, each after its base. -/
def errorFamilies : List (String × List String) := [
  ("BaseException", ["Exception", "KeyboardInterrupt", "SystemExit", "GeneratorExit"]),
  ("Exception", ["ArithmeticError", "LookupError", "RuntimeError", "ValueError", "TypeError", "MemoryError",
    "AssertionError", "AttributeError", "StopIteration", "StopAsyncIteration", "BufferError", "EOFError",
    "ImportError", "NameError", "ReferenceError", "SyntaxError", "SystemError", "Warning"]),
  ("ArithmeticError", ["ZeroDivisionError", "OverflowError", "FloatingPointError"]),
  ("LookupError", ["IndexError"]),
  ("RuntimeError", ["NotImplementedError", "RecursionError"]),
  ("ValueError", ["UnicodeError"]),
  ("ImportError", ["ModuleNotFoundError"]),
  ("NameError", ["UnboundLocalError"]),
  ("SyntaxError", ["IndentationError"]),
  ("IndentationError", ["TabError"]),
  ("OSError", ["PermissionError", "FileNotFoundError", "FileExistsError", "ProcessLookupError", "InterruptedError",
    "ChildProcessError", "BlockingIOError", "NotADirectoryError", "IsADirectoryError", "TimeoutError",
    "ConnectionError"]),
  ("ConnectionError", ["BrokenPipeError", "ConnectionAbortedError", "ConnectionResetError",
    "ConnectionRefusedError"]),
  ("Warning", ["UserWarning", "DeprecationWarning", "PendingDeprecationWarning", "SyntaxWarning",
    "RuntimeWarning", "FutureWarning", "ImportWarning", "UnicodeWarning", "BytesWarning", "ResourceWarning",
    "EncodingWarning"])]

def errorClasses : List NativeClass :=
  [failure "BaseException" "object" ["__str__", "__repr__"], failure "KeyError" "LookupError" ["__str__"],
    failure "OSError" "Exception" ["__str__"],
    { id := ⟨"io", "UnsupportedOperation"⟩, bases := [builtin "OSError", builtin "ValueError"] },
    { id := ⟨"decimal", "DecimalException"⟩, bases := [builtin "ArithmeticError"] },
    { id := ⟨"decimal", "InvalidOperation"⟩, bases := [⟨"decimal", "DecimalException"⟩] },
    { id := ⟨"decimal", "DivisionByZero"⟩,
      bases := [⟨"decimal", "DecimalException"⟩, builtin "ZeroDivisionError"] }]
  ++ errorFamilies.flatMap fun f => f.2.map (failure · f.1)

def containerClasses : List NativeClass := [
  abstract "Hashable" [] ["__hash__"],
  abstract "Iterable" [] ["__iter__"],
  abstract "Iterator" ["Iterable"] ["__iter__", "__next__"],
  abstract "Generator" ["Iterator"] ["__iter__", "__next__", "send", "throw", "close"],
  abstract "Reversible" ["Iterable"] ["__reversed__", "__iter__"],
  abstract "Sized" [] ["__len__"],
  abstract "Container" [] ["__contains__"],
  abstract "Collection" ["Sized", "Iterable", "Container"] ["__len__", "__iter__", "__contains__"],
  abstract "Callable" [] ["__call__"],
  abstract "Mapping" ["Collection"],
  abstract "MutableMapping" ["Mapping"],
  abstract "Sequence" ["Reversible", "Collection"],
  abstract "MutableSequence" ["Sequence"],
  abstract "ByteString" ["Sequence"],
  abstract "Set" ["Collection"],
  abstract "MutableSet" ["Set"],
  abstract "MappingView" ["Sized"],
  abstract "KeysView" ["MappingView", "Set"],
  abstract "ItemsView" ["MappingView", "Set"],
  abstract "ValuesView" ["MappingView", "Collection"],
  abstract "Awaitable" [] ["__await__"],
  abstract "Coroutine" ["Awaitable"] ["__await__", "send", "throw", "close"],
  abstract "AsyncIterable" [] ["__aiter__"],
  abstract "AsyncIterator" ["AsyncIterable"] ["__anext__", "__aiter__"],
  abstract "AsyncGenerator" ["AsyncIterator"] ["__aiter__", "__anext__", "asend", "athrow", "aclose"]]

def foreignClasses : List NativeClass := [
  { id := number, bases := [root], disabled := ["__hash__"], abstractMeta := true },
  { foreign "fractions" "Fraction" [number] ["__float__", "__str__", "__repr__", "__hash__"] with
    abstractMeta := true },
  foreign "decimal" "Decimal" [root] ["__float__", "__str__", "__repr__", "__hash__"] [number],
  foreign "collections" "OrderedDict" [builtin "dict"] ["__repr__", "__iter__", "__reversed__", "keys"],
  { foreign "collections" "deque" [root]
      (collectionMethods ++ ["__getitem__", "__reversed__", "append"]) [container "MutableSequence"] with
    disabled := ["__hash__"] },
  { foreign "io" "IOBase" [root] ["__iter__", "__next__"] with abstractMeta := true },
  foreign "_io" "StringIO" [root] ["__iter__", "__next__", "read", "write", "fileno"]
    [⟨"io", "IOBase"⟩],
  foreign "datetime" "date" [root] ["__str__", "__repr__", "__hash__"],
  foreign "datetime" "datetime" [⟨"datetime", "date"⟩] ["__str__", "__repr__", "__hash__"],
  foreign "pathlib" "PurePath" [root] ["__str__", "__repr__", "__fspath__", "__bytes__", "__hash__"],
  foreign "pathlib" "PurePosixPath" [⟨"pathlib", "PurePath"⟩],
  foreign "re" "Pattern" [root] ["__repr__", "__hash__"],
  foreign "re" "Match" [root] ["__repr__", "__getitem__"],
  foreign "threading" "Thread" [root] ["__repr__"],
  foreign "abc" "ABCMeta" [metaClass],
  { id := standIn "BlankSlate", bases := [root], members := ["__repr__"] },
  convertible "ToInt" ["__index__"],
  convertible "ToF" ["__float__"],
  convertible "ToStr" ["__str__"],
  convertible "ToBytes" ["__bytes__"],
  convertible "ToPath" ["__fspath__"],
  convertible "ToArray" ["__iter__", "__len__"],
  convertible "ToHash" ["keys", "__getitem__"],
  convertible "ToIO" ["read", "write", "fileno"],
  foreign "sigconf.generators" "WithEnum" [root] ["__iter__", "__repr__"],
  foreign "sigconf.invocation" "Block" [root] ["__repr__"],
  foreign "sigconf.invocation" "TracedBlock" [root] ["__call__"]]

def table : List NativeClass := valueClasses ++ iteratorClasses ++ errorClasses ++ containerClasses ++ foreignClasses

def find? (c : ClassId) (natives : List NativeClass := table) : Option NativeClass := natives.find? (·.id == c)

/-- Native classes that are also known under another name. -/
def otherNames : List (String × ClassId) :=
  [("IOError", builtin "OSError"), ("EnvironmentError", builtin "OSError"),
    ("types.MappingProxyType", builtin "mappingproxy"), ("io.StringIO", ⟨"_io", "StringIO"⟩)]

def named? (name : String) (natives : List NativeClass := table) : Option NativeClass :=
  let typeName := ((otherNames.lookup name).map (·.typeName)).getD name
  natives.find? fun n => n.id.typeName == typeName || n.id.home ++ "." ++ n.id.name == typeName

end NativeClass

end Conformance
