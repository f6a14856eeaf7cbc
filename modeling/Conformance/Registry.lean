import Conformance.Fault
import Conformance.Log
import Conformance.Registry.Names
import Conformance.TypeExpr.ClassNames
import Conformance.TypeExpr.Parser

/-!
# The registry of names

What the names in signatures mean: classes, interfaces and aliases, the ones known from the start and
the ones registered later.  What has been looked up is kept: classes, the nodes of interfaces, the
expansions of aliases and whole signatures.  A registration forgets what was kept under its own name, and nothing
else.

The meaning of a name is a pure function of the registry (`interfaceOf`, `expansionOf`, `classOf`); the
operations that also keep what they read (`interface`, `expandAlias`, `resolveClass`, `signature`)
return the registry after them.
-/

namespace Conformance

/-- A capability of an interface as registered: the parameter list is still text. -/
structure CapabilityDecl where
  name : String
  params : Option String := none
  explicit : Bool := false
  deriving DecidableEq, Repr, Inhabited

/-- Something that was kept, with the number it was first handed out under. -/
structure Kept (α : Type) where
  serial : Nat
  node : α
  deriving Inhabited

/-- The registry. -/
structure Registry where
  classes : Table Value
  interfaces : Table (List CapabilityDecl)
  aliases : Table String
  /-- The classes and modules that are found without being registered. -/
  targets : String → Option Target := Names.target?
  /-- The constants that can be looked up. -/
  constants : String → Option Value := Names.constant?
  /-- The classes and modules that were found for names. -/
  resolved : Table Target := []
  interfaceNodes : Table (Kept (List (Capability TypeExpr))) := []
  expansions : Table (Kept TypeExpr) := []
  signatures : Table (Kept Signature) := []
  /-- The number for the next thing that is handed out. -/
  serial : Nat := 0
  deriving Inhabited

namespace Registry

/-- A capability without demands on its arguments. -/
def method (name : String) : CapabilityDecl := { name }

/-- A capability that accepts one argument. -/
def unaryMethod (name : String) : CapabilityDecl := { name, params := some "(untyped)" }

/-- The interfaces known from the start. -/
def coreInterfaces : Table (List CapabilityDecl) := [
  ("_ToInt", [method "__index__"]),
  ("_ToF", [method "__float__"]),
  ("_ToS", [method "__str__"]),
  ("_ToStr", [{ name := "__str__", explicit := true }]),
  ("_ToPath", [method "__fspath__"]),
  ("_ToBytes", [method "__bytes__"]),
  ("_Each", [method "__iter__"]),
  ("_Iterable", [method "__iter__"]),
  ("_Iterator", [method "__iter__", method "__next__"]),
  ("_Sized", [method "__len__"]),
  ("_Container", [unaryMethod "__contains__"]),
  ("_Hashable", [method "__hash__"]),
  ("_Callable", [method "__call__"]),
  ("_Reader", [method "read"]),
  ("_Writer", [unaryMethod "write"]),
  ("_ToHash", [method "keys", unaryMethod "__getitem__"]),
  ("_Mapping", [method "keys", unaryMethod "__getitem__"])]

/-- The aliases known from the start. -/
def coreAliases : Table String := [
  ("string", "str | _ToStr"),
  ("real", "int | float"),
  ("index", "int | _ToInt"),
  ("path", "str | bytes | _ToPath"),
  ("buffer", "bytes | bytearray | memoryview")]

def initial : Registry where
  classes := Names.coreClasses.map fun e => (e.1, .classObject e.2)
  interfaces := coreInterfaces
  aliases := coreAliases

/-- Characters with every `::` among them made a dot. -/
def dotted : List Char → List Char
  | ':' :: ':' :: cs => '.' :: dotted cs
  | c :: cs => c :: dotted cs
  | [] => []

/-- The form of a name that is looked up: a leading `::` is dropped and every other one is a dot. -/
def normalize (name : String) : String :=
  String.ofList (dotted (match name.toList with
    | ':' :: ':' :: cs => cs
    | cs => cs))

/-! ## Registration -/

def registerClass (r : Registry) (name : String) (v : Value) : Registry :=
  let key := normalize name
  { r with classes := r.classes.insert key v, resolved := r.resolved.erase key }

def registerInterface (r : Registry) (name : String) (methods : List CapabilityDecl) :
    Except Fault Registry :=
  if (((name.splitOn "::").getLast?).getD "").startsWith "_" then
    .ok { r with
      interfaces := r.interfaces.insert name methods
      interfaceNodes := r.interfaceNodes.erase name }
  else .error (.interfaceName name)

def registerAlias (r : Registry) (name text : String) : Registry :=
  let key := normalize name
  { r with aliases := r.aliases.insert key text, expansions := r.expansions.erase key }

/-! ## Reading texts -/

/-- What reading a text gives, and the interfaces looked up on the way. -/
structure Reading (α : Type) where
  result : Except Fault α
  mentions : List String := []
  deriving Inhabited

/-- The fault of a reading that stopped. -/
def haltFault (text : String) (h : Parser.Halt Fault) : Fault :=
  match h.reason with
  | .malformed message span =>
    .malformed text [{ kind := .malformedText, message, signature := some text, span := some span }]
  | .lookup fault => fault
  | .exhausted => .tooDeep

def readWith {α : Type} (text : String) (parser : Parser Fault α) : Reading α :=
  match Token.tokenize text with
  | .error e => ⟨.error (.tooManyDigits e), []⟩
  | .ok stream =>
    if stream.diagnostics.isEmpty then
      match parser.run ⟨stream.tokens, []⟩ with
      | .ok (node, cursor) => ⟨.ok node, cursor.mentions⟩
      | .error h => ⟨.error (haltFault text h), h.mentions⟩
    else ⟨.error (.malformed text stream.diagnostics), []⟩

/-- How interfaces are looked up while a text is read. -/
abbrev Resolve := String → Except Fault (List (Capability TypeExpr))

def readType (resolve : Resolve) (typeParams : List String) (text : String) : Reading TypeExpr :=
  readWith text (Parser.wholeType ⟨typeParams, resolve⟩)

def readSignature (resolve : Resolve) (text : String) : Reading Signature :=
  readWith text (Parser.wholeSignature resolve text)

def readParams (resolve : Resolve) (text : String) : Reading Signature :=
  readSignature resolve (text ++ " -> untyped")

/-! ## Interfaces -/

def readCapability (resolve : Resolve) (d : CapabilityDecl) : Except Fault (Capability TypeExpr) :=
  match d.params with
  | none => .ok ⟨d.name, none, d.explicit⟩
  | some text => (readParams resolve text).result.map fun s => ⟨d.name, some s.params, d.explicit⟩

/-- The capabilities that an interface asks for.  `depth` bounds how far interfaces lead to others
that were not read before. -/
def interfaceAt (r : Registry) : (depth : Nat) → Resolve
  | 0, _ => .error .tooDeep
  | depth + 1, name =>
    match r.interfaceNodes.find? name with
    | some kept => .ok kept.node
    | none =>
      match r.interfaces.find? name with
      | none => .error (.unknownName .ofInterface name)
      | some decls => decls.mapM (readCapability (r.interfaceAt depth))

/-- No chain of different interfaces is longer than this. -/
def interfaceDepth (r : Registry) : Nat := r.interfaces.length + 1

/-- The capabilities that an interface asks for. -/
def interfaceOf (r : Registry) : Resolve := r.interfaceAt r.interfaceDepth

/-- Keeps a node under the next number. -/
def keepInterface (r : Registry) (name : String) (methods : List (Capability TypeExpr)) : Registry :=
  { r with
    interfaceNodes := r.interfaceNodes.insert name ⟨r.serial, methods⟩
    serial := r.serial + 1 }

/-- Keeps the node of an interface that was looked up, and of those looked up for it. -/
def rememberInterface : (depth : Nat) → Registry → String → Registry
  | 0, r, _ => r
  | depth + 1, r, name =>
    if (r.interfaceNodes.find? name).isSome then r else
    match r.interfaces.find? name with
    | none => r
    | some decls =>
      let look (acc : Registry × Bool) (d : CapabilityDecl) : Registry × Bool :=
        match acc.2, d.params with
        | true, some text =>
          let reading := readParams (r.interfaceAt depth) text
          (reading.mentions.foldl (rememberInterface depth) acc.1, reading.result.isOk)
        | ok, _ => (acc.1, ok)
      let after := (decls.foldl look (r, true)).1
      match r.interfaceAt (depth + 1) name with
      | .ok methods => after.keepInterface name methods
      | .error _ => after

/-- Keeps the nodes of all interfaces looked up while a text was read. -/
def rememberAll (r : Registry) (mentions : List String) : Registry :=
  mentions.foldl (rememberInterface r.interfaceDepth) r

/-- Looks an interface up. -/
def interface (r : Registry) (name : String) :
    Except Fault (Kept (List (Capability TypeExpr))) × Registry :=
  let after := r.rememberAll [name]
  match r.interfaceOf name with
  | .error e => (.error e, after)
  | .ok methods => (.ok ((after.interfaceNodes.find? name).getD ⟨0, methods⟩), after)

/-! ## Types and aliases -/

/-- Reads a type expression with the names of this registry. -/
def parseType (r : Registry) (text : String) (typeParams : List String := []) :
    Except Fault TypeExpr × Registry :=
  let reading := readType r.interfaceOf typeParams text
  (reading.result, r.rememberAll reading.mentions)

/-- The number of a node: an interface has the number of its kept node, all others a new one. -/
def number (r : Registry) (t : TypeExpr) : Kept TypeExpr × Registry :=
  let fresh := (⟨r.serial, t⟩, { r with serial := r.serial + 1 })
  match t with
  | .interface name _ =>
    match r.interfaceNodes.find? name with
    | some kept => (⟨kept.serial, t⟩, r)
    | none => fresh
  | _ => fresh

def isAlias (r : Registry) (name : String) : Bool := (r.aliases.find? (normalize name)).isSome

/-- What an alias stands for. -/
def expansionOf (r : Registry) (name : String) : Except Fault TypeExpr :=
  let key := normalize name
  match r.expansions.find? key with
  | some kept => .ok kept.node
  | none =>
    match r.aliases.find? key with
    | none => .error (.unknownAlias key)
    | some text => (readType r.interfaceOf [] text).result

def expandAlias (r : Registry) (name : String) : Except Fault (Kept TypeExpr) × Registry :=
  let key := normalize name
  match r.expansions.find? key with
  | some kept => (.ok kept, r)
  | none =>
    match r.aliases.find? key with
    | none => (.error (.unknownAlias key), r)
    | some text =>
      match r.parseType text with
      | (.error e, after) => (.error e, after)
      | (.ok t, after) =>
        let (kept, after) := after.number t
        (.ok kept, { after with expansions := after.expansions.insert key kept })

/-! ## Classes and constants -/

/-- Names that cannot even be looked for. -/
def searchable (key : String) : Except Fault Unit :=
  if key.isEmpty then .error .emptyName
  else if key.startsWith "." then .error (.relativeName key)
  else .ok ()

/-- Searches for the class or module that a name stands for.  A registration of nothing is no
registration. -/
def findClass (r : Registry) (name : String) : Except Fault Target :=
  let key := normalize name
  let unknown : Except Fault Target := .error (.unknownName .ofClass name)
  match (r.classes.find? key).filter (!·.isNull) with
  | some v => (Target.ofValue? v).elim unknown .ok
  | none =>
    match r.targets key with
    | some t => .ok t
    | none => do
      searchable key
      unknown

def classOf (r : Registry) (name : String) : Except Fault Target :=
  match r.resolved.find? (normalize name) with
  | some t => .ok t
  | none => r.findClass name

/-- Looks a class or module up; the first time it is reported. -/
def resolveClass (r : Registry) (name : String) :
    Except Fault Target × Registry × List LogRecord :=
  let key := normalize name
  match r.classOf name with
  | .error e => (.error e, r, [])
  | .ok t =>
    if (r.resolved.find? key).isSome then (.ok t, r, []) else
    (.ok t, { r with resolved := r.resolved.insert key t },
      [.debug .registry s!"Resolved `{name}` to {t.written}"])

/-- Looks class names up in order, until one means nothing. -/
def resolveAll (r : Registry) : List String → Except Fault Unit × Registry × List LogRecord
  | [] => (.ok (), r, [])
  | name :: names =>
    match r.resolveClass name with
    | (.error e, after, log) => (.error e, after, log)
    | (.ok _, after, log) =>
      let (result, last, more) := after.resolveAll names
      (result, last, log ++ more)

def constantOf (path : String) (constants : String → Option Value := Names.constant?) : Except Fault Value :=
  let key := normalize path
  match constants key with
  | some v => .ok v
  | none =>
    if key.startsWith "." then .error (.relativeName key)
    else .error (.unknownName .ofConstant path)

/-! ## Signatures -/

/-- Reads a signature, looks up every class name in it, and keeps it under its text. -/
def signature (r : Registry) (text : String) :
    Except Fault (Kept Signature) × Registry × List LogRecord :=
  match r.signatures.find? text with
  | some kept => (.ok kept, r, [])
  | none =>
    let reading := readSignature r.interfaceOf text
    let after := r.rememberAll reading.mentions
    match reading.result with
    | .error e => (.error e, after, [])
    | .ok s =>
      match after.resolveAll (s.classNames after.isAlias) with
      | (.error e, after, log) => (.error e, after, log)
      | (.ok _, after, log) =>
        let kept : Kept Signature := ⟨after.serial, s⟩
        (.ok kept,
          { after with signatures := after.signatures.insert text kept, serial := after.serial + 1 }, log)

/-- Reads and looks up several signatures in order. -/
def signatureList (r : Registry) : List String →
    Except Fault (List Signature) × Registry × List LogRecord
  | [] => (.ok [], r, [])
  | text :: texts =>
    match r.signature text with
    | (.error e, after, log) => (.error e, after, log)
    | (.ok kept, after, log) =>
      match after.signatureList texts with
      | (.error e, last, more) => (.error e, last, log ++ more)
      | (.ok ss, last, more) => (.ok (kept.node :: ss), last, log ++ more)

end Registry

end Conformance
