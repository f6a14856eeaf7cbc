import Conformance.Program

/-!
# Lineage of classes

The linear order in which a class and its ancestors are searched, and the subclass relation.  A class
is a subclass of everything in its line, of the abstract classes that something in its line is
registered with, and of every abstract class whose protocol it implements.
-/

namespace Conformance

namespace Program

def bases (p : Program) (c : ClassId) : List ClassId :=
  match p.class? c with
  | some d => d.bases
  | none => ((NativeClass.find? c p.natives).map (·.bases)).getD []

/-- The head of a list that stands in the tail of none. -/
def nextInLine (lists : List (List ClassId)) : Option ClassId :=
  (lists.filterMap List.head?).find? fun c => lists.all fun l => !l.tail.contains c

/-- Merges lines of ancestors, keeping the order of each. -/
def mergeLines : (fuel : Nat) → List (List ClassId) → List ClassId
  | 0, _ => []
  | fuel + 1, lists =>
    match nextInLine lists with
    | none => []
    | some c => c :: mergeLines fuel (lists.map fun l => if l.head? == some c then l.tail else l)

/-- A class and its ancestors in search order, through at most `depth` generations. -/
def lineTo (p : Program) : (depth : Nat) → ClassId → List ClassId
  | 0, c => [c]
  | depth + 1, c =>
    let parents := p.bases c
    let lines := parents.map (p.lineTo depth) ++ [parents]
    c :: mergeLines (lines.flatten.length + 1) lines

/-- No native class has more generations of ancestors than this. -/
def nativeDepth : Nat := 8

/-- A class and its ancestors in search order. -/
def line (p : Program) (c : ClassId) : List ClassId := p.lineTo (p.classes.length + nativeDepth) c

/-- The abstract classes that a class of the line is registered with, with their ancestors. -/
def registrations (p : Program) (c : ClassId) : List ClassId :=
  ((NativeClass.find? c p.natives).map (·.registered)).getD [] |>.flatMap p.line

/-- Something found on a class while searching the line. -/
inductive Found where
  /-- A member of a declared class. -/
  | declared (owner : ClassId) (m : Member)
  /-- A method of a native class. -/
  | native (owner : ClassId)
  /-- The name is there to say that there is no such method. -/
  | disabled
  deriving Inhabited

/-- What one class itself says about a name.  A declared class that defines when its instances are equal
and not how they are hashed has instances that cannot be hashed. -/
def ownMember? (p : Program) (c : ClassId) (name : String) : Option Found :=
  match p.class? c with
  | some d =>
    match d.members.find? (·.1 == name) with
    | some (_, .value .null) => some .disabled
    | some (_, m) => some (.declared c m)
    | none => if name == "__hash__" && d.members.any (·.1 == "__eq__") then some .disabled else none
  | none => (NativeClass.find? c p.natives).bind fun n =>
    if n.members.contains name then some (.native c)
    else if n.disabled.contains name then some .disabled
    else none

/-- What the first class of the line that knows a name says about it. -/
def member? (p : Program) (c : ClassId) (name : String) : Option Found :=
  (p.line c).findSome? (p.ownMember? · name)

/-- Does the class have all these special methods? -/
def implements (p : Program) (c : ClassId) (names : List String) : Bool :=
  names.all fun name =>
    match p.member? c name with
    | some .disabled | none => false
    | some _ => true

def isSubclass (p : Program) (c d : ClassId) : Bool :=
  c == d || (p.line c).contains d || ((p.line c).flatMap p.registrations).contains d
    || (match NativeClass.find? d p.natives with
      | some n => !n.protocol.isEmpty && p.implements c n.protocol
      | none => false)

/-- Is a value an instance of a class?  A declared class may name another one as that of its instances. -/
def isInstance (p : Program) (v : Value) (c : ClassId) : Bool :=
  p.isSubclass v.classOf c
    || match p.member? v.classOf "__class__" with
      | some (.declared _ (.value (.classObject d))) => p.isSubclass d c
      | _ => false

def errorStyle (p : Program) (c : ClassId) : Value.ErrorStyle :=
  if p.isSubclass c (.builtin "KeyError") then .lookup
  else if p.isSubclass c (.builtin "OSError") then .system
  else .plain

def text (p : Program) (v : Value) : String := v.textWith p.errorStyle

end Program

end Conformance
