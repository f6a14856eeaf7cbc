import Conformance.Fault
import Conformance.Program.Lineage

/-!
# Attributes, capabilities and signatures

What a value gives when it is asked for a name, whether that can be called, and with what arguments.
Special names (`__x__`) are looked up on the class alone; other names first on the object itself.
-/

namespace Conformance

/-- What a value gives for a name. -/
inductive Attribute where
  /-- A value as it stands. -/
  | value (v : Value)
  /-- A scripted function bound to a receiver. -/
  | bound (formals : List Formal) (code : Nat) (receiver : Value)
  /-- A scripted method seen through its class: its first argument is the receiver. -/
  | unbound (formals : List Formal) (code : Nat)
  /-- A native method of the receiver's class. -/
  | native (owner : ClassId) (name : String) (receiver : Value)
  deriving Inhabited

namespace Attribute

/-- The attribute with its receiver replaced by a reference to the same object.  A method that is
bound to a class stays so. -/
def withReceiver (target : Value) : Attribute → Attribute
  | native owner name _ => native owner name target
  | bound formals code (.classObject c) => bound formals code (.classObject c)
  | bound formals code _ => bound formals code target
  | a => a

def resolved (w : World) : Attribute → Attribute
  | value v => value (w.resolve v)
  | a => a

end Attribute

namespace Program

def isSpecial (name : String) : Bool := name.startsWith "__" && name.endsWith "__"

/-- A member as seen through an instance of its class. -/
def bindToInstance (v : Value) : Member → Attribute
  | .value (.function formals code) => .bound formals code v
  | .value w => .value w
  | .method .ofInstance formals code => .bound formals code v
  | .method .ofClass formals code => .bound formals code (.classObject v.classOf)
  | .method .static formals code => .value (.function formals code)

def bindToClass (c : ClassId) : Member → Attribute
  | .value w => .value w
  | .method .ofClass formals code => .bound formals code (.classObject c)
  | .method .ofInstance formals code => .unbound formals code
  | .method .static formals code => .value (.function formals code)

/-- What a class gives for a name, seen through an instance. -/
def classAttribute? (p : Program) (v : Value) (name : String) : Option Attribute :=
  match p.member? v.classOf name with
  | some (.declared _ m) => some (bindToInstance v m)
  | some (.native owner) => some (.native owner name v)
  | some .disabled => some (.value .null)
  | none => none

def attribute? (p : Program) (v : Value) (name : String) : Option Attribute :=
  match v with
  | .object _ _ attributes =>
    match attributes.find? (·.1 == name) with
    | some a => some (.value a.2)
    | none => p.classAttribute? v name
  | .classObject c =>
    match p.member? c name with
    | some (.declared _ m) => some (bindToClass c m)
    | some (.native owner) => some (.native owner name v)
    | some .disabled => some (.value .null)
    | none => p.classAttribute? v name
  | .moduleObject m =>
    match p.module? m with
    | some d => ((d.members.find? (·.1 == name)).map fun a => Attribute.value a.2)
    | none =>
      if ((p.functions.lookup m).getD []).contains name then some (.value (.builtin name)) else none
  | _ => p.classAttribute? v name

/-- The method that a value answers a capability with: special names are looked up on its class. -/
def capability? (p : Program) (v : Value) (name : String) : Option Attribute :=
  if isSpecial name then p.classAttribute? v name else p.attribute? v name

/-- Is what a value's class has under a name just what every object inherits?  Where a class has
nothing under the name, that is what every object inherits too, if it inherits nothing. -/
def isInherited (p : Program) (v : Value) (name : String) : Bool :=
  match p.member? v.classOf name with
  | some (.native owner) => owner == NativeClass.root
  | some (.declared _ _) => false
  | some .disabled | none => (p.ownMember? NativeClass.root name).isNone

def isCallable (p : Program) (v : Value) : Bool := (p.member? v.classOf "__call__").isSome

def canCall (p : Program) : Attribute → Bool
  | .value v => p.isCallable v
  | _ => true

/-! ## Signatures -/

/-- One required argument by position. -/
def oneArgument : List Formal := [⟨.positionalOnly, "value", false⟩]

/-- The signatures of built-in functions. -/
def builtinFormals : List (String × List Formal) :=
  [("len", oneArgument), ("abs", oneArgument), ("callable", oneArgument), ("repr", oneArgument),
    ("isinstance", [⟨.positionalOnly, "obj", false⟩, ⟨.positionalOnly, "class_or_tuple", false⟩]),
    ("sorted", [⟨.positionalOnly, "iterable", false⟩, ⟨.keywordOnly, "key", true⟩,
      ⟨.keywordOnly, "reverse", true⟩]),
    ("add", [⟨.positionalOnly, "a", false⟩, ⟨.positionalOnly, "b", false⟩]),
    ("floordiv", [⟨.positionalOnly, "a", false⟩, ⟨.positionalOnly, "b", false⟩]),
    ("neg", oneArgument)]

/-- Parameters by position or by name, of which the first `required` have no default. -/
def namedFormals (required : Nat) (names : List String) : List Formal :=
  names.zipIdx.map fun n => ⟨.positionalOrKeyword, n.1, required ≤ n.2⟩

/-- The signatures of native classes that report one. -/
def classFormals : List (ClassId × List Formal) :=
  [(.builtin "complex", namedFormals 0 ["real", "imag"]),
    (.builtin "memoryview", namedFormals 1 ["object"]),
    (.builtin "enumerate", namedFormals 1 ["iterable", "start"]),
    (.builtin "property", namedFormals 0 ["fget", "fset", "fdel", "doc"]),
    (.builtin "reversed", oneArgument),
    (⟨"fractions", "Fraction"⟩,
      namedFormals 0 ["numerator", "denominator"] ++ [⟨.keywordOnly, "_normalize", true⟩]),
    (⟨"decimal", "Decimal"⟩, namedFormals 0 ["value", "context"]),
    (⟨"pathlib", "PurePath"⟩, [⟨.variadic, "args", false⟩]),
    (⟨"_io", "StringIO"⟩, namedFormals 0 ["initial_value", "newline"]),
    (⟨"re", "Pattern"⟩, []),
    (⟨"re", "Match"⟩, []),
    (⟨"threading", "Thread"⟩, namedFormals 0 ["group", "target", "name", "args", "kwargs"]
      ++ [⟨.keywordOnly, "daemon", true⟩]),
    (.builtin "list", [⟨.positionalOnly, "iterable", true⟩]),
    (.builtin "tuple", [⟨.positionalOnly, "iterable", true⟩]),
    (.builtin "float", [⟨.positionalOnly, "x", true⟩]),
    (.standIn "ToInt", [⟨.positionalOrKeyword, "value", true⟩]),
    (.standIn "ToF", [⟨.positionalOrKeyword, "value", true⟩]),
    (.standIn "ToStr", [⟨.positionalOrKeyword, "value", true⟩]),
    (.standIn "ToBytes", [⟨.positionalOrKeyword, "value", true⟩]),
    (.standIn "ToPath", [⟨.positionalOrKeyword, "value", true⟩]),
    (.standIn "ToArray", [⟨.variadic, "elements", false⟩]),
    (.standIn "ToHash", [⟨.positionalOrKeyword, "mapping", true⟩]),
    (.standIn "ToIO", [⟨.positionalOrKeyword, "io", false⟩])]

/-- The signature of a native method, by the class that defines it.  Methods that report none accept
anything. -/
def methodFormals? (owner : ClassId) (name : String) : Option (List Formal) :=
  if ["__str__", "__repr__", "__hash__", "__index__", "__float__", "__iter__", "__len__", "__bytes__",
      "__next__", "__fspath__", "bit_length"].contains name then some []
  else if name == "upper" then if owner == .builtin "str" then some [] else none
  else if name == "__contains__" then
    if owner == .builtin "set" || owner == .builtin "frozenset" then none else some oneArgument
  else if name == "__getitem__" then
    if owner == .builtin "list" || owner == .builtin "dict" then none else some oneArgument
  else if name == "split" then
    some [⟨.positionalOrKeyword, "sep", true⟩, ⟨.positionalOrKeyword, "maxsplit", true⟩]
  else if name == "sort" then some [⟨.keywordOnly, "key", true⟩, ⟨.keywordOnly, "reverse", true⟩]
  else if name == "append" then if owner == .builtin "list" then some oneArgument else none
  else if owner == .standIn "ToHash" && name == "keys" then some []
  else if owner == .standIn "ToIO" then
    if name == "read" then some [⟨.variadic, "args", false⟩]
    else if name == "write" then some [⟨.positionalOrKeyword, "data", false⟩] else some []
  else if name == "read" then some [⟨.positionalOnly, "size", true⟩]
  else if name == "write" then some oneArgument
  else if name == "__call__" then some Formal.anything
  else none

/-- Does a native class make its instances from nothing? -/
def isBare (c : ClassId) : Bool :=
  c == .standIn "BlankSlate" || c == NativeClass.number || c.home == (ClassId.container "").home

/-- The signature of making an instance of a class, if it reports one: the one of its initialiser
without the receiver, of the native class that its instances are built from, or no parameters. -/
def constructorFormals? (p : Program) (c : ClassId) : Option (List Formal) :=
  match p.member? c "__init__" with
  | some (.declared _ (.method _ formals _)) => Formal.bound? formals
  | some (.declared _ (.value (.function formals _))) => Formal.bound? formals
  | _ =>
    let natives := (p.line c).filter fun k => (p.class? k).isNone && k != NativeClass.root
    match natives.findSome? (classFormals.lookup ·) with
    | some formals => some formals
    | none => if natives.all isBare then some [] else none

/-- The signature that a value reports when it is called, if any.  An instance reports the one of the
method that its class answers calls with. -/
def formals? (p : Program) : Value → Option (List Formal)
  | .function formals _ => some formals
  | .builtin name => builtinFormals.lookup name
  | .classObject c => p.constructorFormals? c
  | .traced _ => some Formal.anything
  | v =>
    match p.member? v.classOf "__call__" with
    | some (.declared _ m) =>
      match bindToInstance v m with
      | .bound formals _ _ => Formal.bound? formals
      | .value (.function formals _) => some formals
      | .value (.builtin name) => builtinFormals.lookup name
      | .value (.classObject c) => p.constructorFormals? c
      | _ => none
    | _ => none

/-- Is the receiver a class, and the owner of a method among the classes it is made of?  Then the method is
seen through its class. -/
def isOwn (p : Program) (owner : ClassId) : Value → Bool
  | .classObject c => (p.line c).contains owner
  | _ => false

/-- The signature that an attribute reports, if any. -/
def attributeFormals? (p : Program) : Attribute → Option (List Formal)
  | .value v => p.formals? v
  | .bound formals _ _ => Formal.bound? formals
  | .unbound formals _ => some formals
  | .native owner name receiver =>
    if p.isOwn owner receiver then (methodFormals? owner name).map (⟨.positionalOnly, "self", false⟩ :: ·)
    else methodFormals? owner name

/-- Can something with this signature be called with the required arguments of a parameter list?
What reports no signature accepts anything. -/
def fits {τ : Type} (formals : Option (List Formal)) (params : Params τ) : Bool :=
  match formals with
  | none => true
  | some fs => Formal.accepts fs params.minPositionals (params.requiredKeywords.map (·.1))

end Program

end Conformance
