import Conformance.Program.Inquiry

/-!
# Comparing values

Equality, hashes and order as a program sees them.  The classes that a program declares may say themselves
what their instances equal, how they are hashed and what they are less than; everything else compares by
content, and what has no content by being the same object.

A key is looked for among others by its hash, and then by equality with those of the same hash.  The hash of
a value is again a value (`Program.hashed`): a number, where the class says so itself, and otherwise the value.
-/

namespace Conformance

namespace Program

/-- Does some declared class have a method of one of these names? -/
def declares (p : Program) (names : List String) : Bool :=
  p.classes.any fun d => d.members.any fun m => names.contains m.1

/-- The method that a declared class has under a special name, bound to the value. -/
def scripted? (p : Program) (v : Value) (name : String) : Run (Option Attribute) := do
  match ← p.special? v name with
  | some (.native _ _ _) | none => return none
  | some method => return some method

/-- The class that a special method comes from. -/
def source? (p : Program) (c : ClassId) (name : String) : Option ClassId :=
  match p.member? c name with
  | some (.declared owner _) | some (.native owner) => some owner
  | _ => none

/-- Is this the name that the right operand of a comparison is asked under? -/
def isComparison (reflected : String) : Bool := ["__eq__", "__lt__", "__gt__"].contains reflected

/-- Does the right operand of an operator go first?  It does if its class extends the left one's; of an
operation other than a comparison, only with a method that the left one does not have. -/
def rightFirst (p : Program) (reflected : String) (left right : ClassId) : Bool :=
  left != right && (p.line right).contains left
    && (isComparison reflected || p.source? left reflected != p.source? right reflected)

def firstAnswer (first second : Run (Option Value)) : Run (Option Value) := do
  match ← first with
  | some v => return some v
  | none => second

/-- What the operands of an operator answer.  A declared class answers by methods of its own, the right operand
under the reflected name: either first, or after the left operand and after what `native` knows; but if both are
of one class, only in a comparison.  `converse` is what the right operand knows natively. -/
def answered? (p : Program) (call : Caller) (name reflected : String) (a b : Value)
    (native converse : Run (Option Value)) : Run (Option Value) := do
  let world ← get
  let left := (world.resolve a).classOf
  let right := (world.resolve b).classOf
  let own ← p.scripted? a name
  let other ← if left != right || isComparison reflected then p.scripted? b reflected else pure none
  let first := match own with
    | some method => some <$> call method [b] []
    | none => native
  let second := match other with
    | some method => some <$> call method [a] []
    | none => if isComparison reflected then converse else return none
  if p.rightFirst reflected left right then firstAnswer second first else firstAnswer first second

/-! ## Hashes -/

def integerHash (n : Int) : Int :=
  let m : Int := n.natAbs % 0x1FFFFFFFFFFFFFFF
  let h := if n < 0 then -m else m
  if h == -1 then -2 else h

/-- The hash of a value that is `w` when looked into.  Some values cannot be keys; a declared class may have
a hash of its own, which has to be an integer. -/
def ownHash (p : Program) (call : Caller) (v w : Value) : Run Value := do
  match p.member? w.classOf "__hash__" with
  | some .disabled => typeError s!"unhashable type: '{w.kindName}'"
  | some (.declared _ m) =>
    let r ← call ((bindToInstance w m).withReceiver v) [] []
    match Value.integer? ((← get).resolve r) with
    | some n => return .int (integerHash n)
    | none => typeError "__hash__ method should return an integer"
  | _ =>
    match w.extent? with
    | some (0, n, 1) => return .int (integerHash n)
    | _ => return v

mutual

/-- The hash of a value: that of a tuple is made of those of its elements. -/
def hashed (p : Program) (call : Caller) : Value → Run Value
  | .sequence .tuple items => do return .sequence .tuple (← hashedAll p call items)
  | v => do ownHash p call v ((← get).resolve v)

def hashedAll (p : Program) (call : Caller) : List Value → Run (List Value)
  | [] => return []
  | v :: vs => do
    let h ← hashed p call v
    return h :: (← hashedAll p call vs)

end

/-- What a computation gives, without its effects. -/
def foreseen {α : Type} (run : Run α) : Run α := do
  let world ← get
  let a ← run
  set world
  return a

/-- The place of a key among others, where `alike` compares those of the same hash. -/
def placeBy (p : Program) (call : Caller) (alike : Value → Value → Run Bool) (key hash : Value) :
    List Value → Run (Option Nat)
  | [] => return none
  | k :: ks => do
    let other ← foreseen (p.hashed call k)
    if (← get).same other hash then
      if ← alike k key then return some 0
    return (← placeBy p call alike key hash ks).map (· + 1)

/-! ## Equality -/

def isSame : Value → Value → Bool
  | .cell i, .cell j => i == j
  | _, _ => false

/-- Do two lists agree, element by element, as far as both go? -/
def agree (alike : Value → Value → Run Bool) : List Value → List Value → Run Bool
  | v :: vs, w :: ws => do if ← alike v w then agree alike vs ws else return false
  | _, _ => return true

/-- Does a native value know how to compare with another?  One that does not leaves it to the other. -/
def isComparable (a b : Value) : Bool :=
  match a.core, b.core with
  | .bytes k _, .bytes l _ => k == l || k != .bytes
  | .str _, .str _ | .range _ _ _, .range _ _ _ | .date _ _ _, .date _ _ _
  | .datetime _, .datetime _ | .path _, .path _ | .pattern _, .pattern _ => true
  | .mapping k _, .mapping l _ => k != .toHash && l != .toHash
  | .sequence k _, .sequence l _ => k == l || [k, l].all fun kind => kind == .set || kind == .frozenset
  | v, w =>
    match v.number?, w.number? with
    | some x, some y => x.compares y
    | _, _ => false

/-- Are two native values equal, where `alike` compares their elements and `place` finds their keys? -/
def nativeEqual (alike : Value → Value → Run Bool) (place : List Value → Value → Run (Option Nat))
    (a b : Value) : Run Bool := do
  let world ← get
  match (world.resolve a).core, (world.resolve b).core with
  | .sequence .tuple vs, .sequence .tuple ws =>
    if ← agree alike vs ws then return vs.length == ws.length else return false
  | .sequence .list vs, .sequence .list ws | .sequence .deque vs, .sequence .deque ws =>
    if vs.length == ws.length then agree alike vs ws else return false
  | .sequence .set vs, .sequence .set ws | .sequence .set vs, .sequence .frozenset ws
  | .sequence .frozenset vs, .sequence .set ws | .sequence .frozenset vs, .sequence .frozenset ws =>
    if vs.length != ws.length then return false
    vs.allM fun v => do return (← place ws v).isSome
  | .mapping kind es, .mapping k fs =>
    if kind == .toHash || k == .toHash || es.length != fs.length then return world.same a b
    es.allM fun e => do
      match (← place (fs.map (·.1)) e.1).bind fun i => fs[i]? with
      | some f => alike e.2 f.2
      | none => return false
  | .float .nan, _ | .decimal (.nan _ _ _), _ => return false
  | _, _ => return world.same a b

/-- Is a value equal to another?  An object need not equal itself. -/
def equals (p : Program) (call : Caller) : (depth : Nat) → Value → Value → Run Bool
  | 0, _, _ => throw ⟨.builtin "RecursionError", [.str "maximum recursion depth exceeded in comparison"]⟩
  | depth + 1, a, b => do
    let alike (v w : Value) : Run Bool := do if isSame v w then return true else p.equals call depth v w
    let place (keys : List Value) (key : Value) : Run (Option Nat) := do
      p.placeBy call alike key (← foreseen (p.hashed call key)) keys
    let world ← get
    let native : Run (Option Value) := do
      if isComparable (world.resolve a) (world.resolve b) then
        return some (.bool (← nativeEqual alike place a b))
      else return none
    match ← p.answered? call "__eq__" "__eq__" a b native native with
    | some r => p.isTrue call r
    | none => nativeEqual alike place a b

/-- Is a value the same object as another, or equal to it? -/
def isAlike (p : Program) (call : Caller) (a b : Value) : Run Bool := do
  if isSame a b then return true
  if p.declares ["__eq__", "__hash__"] then p.equals call p.depthLimit a b else return (← get).same a b

def isEqual (p : Program) (call : Caller) (a b : Value) : Run Bool := p.equals call p.depthLimit a b

def place? (p : Program) (call : Caller) (keys : List Value) (key : Value) : Run (Option Nat) := do
  let hash ← p.hashed call key
  if p.declares ["__eq__", "__hash__"] then p.placeBy call (p.isAlike call) key hash keys
  else
    let world ← get
    return keys.findIdx? (world.same · key)

def lookup? (p : Program) (call : Caller) (entries : List (Value × Value)) (key : Value) :
    Run (Option Value) := do
  return ((← p.place? call (entries.map (·.1)) key).bind fun i => entries[i]?).map (·.2)

/-! ## Order -/

/-- A result of arithmetic, or the error that it ended in. -/
def computed (r : Except Incomputable Value) : Run Value :=
  match r with
  | .ok v => return v
  | .error e => throw ⟨e.classId, [e.subject]⟩

/-- How a value may lie to another. -/
inductive Relation where
  | below
  | above
  deriving DecidableEq, Repr, Inhabited

namespace Relation

/-- The method that a class answers with. -/
def method : Relation → String
  | below => "__lt__"
  | above => "__gt__"

/-- The relation seen from the other side. -/
def converse : Relation → Relation
  | below => above
  | above => below

/-- Do native values lie so to each other, if they know? -/
def holds? (r : Relation) (a b : Value) : Option Bool :=
  match r with
  | below => (a.less b).toOption
  | above => (b.less a).toOption

def complaint (r : Relation) (a b : Value) : String :=
  match r with
  | below => Unordered.message ⟨a, b⟩
  | above => s!"'>' not supported between instances of '{a.kindName}' and '{b.kindName}'"

/-- Does a list with nothing left lie so to another, as far as they go alike? -/
def ofEnds (r : Relation) (vs ws : List Value) : Bool :=
  match r with
  | below => vs.isEmpty && !ws.isEmpty
  | above => !vs.isEmpty && ws.isEmpty

end Relation

/-- Does one list lie so to another?  They are compared at their first unequal elements. -/
def relatesAll (r : Relation) (alike relates : Value → Value → Run Bool) : List Value → List Value → Run Bool
  | v :: vs, w :: ws => do if ← alike v w then relatesAll r alike relates vs ws else relates v w
  | vs, ws => return r.ofEnds vs ws

/-- Does a value lie so to another? -/
def relates (p : Program) (call : Caller) : (depth : Nat) → Relation → Value → Value → Run Bool
  | 0, _, _, _ => throw ⟨.builtin "RecursionError", [.str "maximum recursion depth exceeded in comparison"]⟩
  | depth + 1, r, a, b => do
    let world ← get
    let native (r : Relation) (a b : Value) : Run (Option Value) := do
      match (world.resolve a).core, (world.resolve b).core with
      | .sequence .list vs, .sequence .list ws | .sequence .tuple vs, .sequence .tuple ws
      | .sequence .deque vs, .sequence .deque ws =>
        return some (.bool (← relatesAll r (p.isAlike call) (p.relates call depth r) vs ws))
      | v, w =>
        if !(isComparable v w) then return none
        else if v.isOrderless w then some <$> computed (.error (.decimal .meaningless))
        else return (r.holds? (world.view a) (world.view b)).map .bool
    match ← p.answered? call r.method r.converse.method a b (native r a b) (native r.converse b a) with
    | some answer => p.isTrue call answer
    | none => typeError (r.complaint (world.resolve a) (world.resolve b))

def isLess (p : Program) (call : Caller) (a b : Value) : Run Bool := p.relates call p.depthLimit .below a b

/-! ## Operators -/

/-- The sum of two values.  A text or sequence whose class also adds from the right joins first of all. -/
def sum (p : Program) (call : Caller) (a b : Value) : Run Value := do
  let world ← get
  let v := world.resolve a
  let w := world.resolve b
  let joins := v.isJoinable && (← p.scripted? a "__radd__").isSome
  let native : Run (Option Value) :=
    if joins || v.knowsNumber w then some <$> computed (v.add w) else return none
  match ← p.answered? call "__add__" "__radd__" a b native native with
  | some r => return r
  | none => computed (v.add w)

def floorQuotient (p : Program) (call : Caller) (a b : Value) : Run Value := do
  let world ← get
  let v := world.resolve a
  let w := world.resolve b
  let native : Run (Option Value) := match v.core with
    | .complex _ _ => return none
    | _ => if v.knowsNumber w then some <$> computed (v.floorQuotient w) else return none
  match ← p.answered? call "__floordiv__" "__rfloordiv__" a b native native with
  | some r => return r
  | none => computed (v.floorQuotient w)

def negate (p : Program) (call : Caller) (v : Value) : Run Value := do
  match ← p.scripted? v "__neg__" with
  | some method => call method [] []
  | none => do computed ((← get).resolve v).negate

def absolute (p : Program) (call : Caller) (v : Value) : Run Value := do
  match ← p.scripted? v "__abs__" with
  | some method => call method [] []
  | none => do computed ((← get).resolve v).absolute

end Program

end Conformance
