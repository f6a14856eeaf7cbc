import Conformance.Program.World
import Conformance.Proofs.NativeClasses

/-!
# Built-in values

A value is built in if it is made of native values only: none of its parts is an instance of a declared class,
a stand-in, or the mark of a block (`Value.BuiltIn`).  The cells that it may refer to hold built-in values again
(`World.BuiltIn`).

The classes of such a value are all native, so its shape can be told from what it is an instance of: what is a
mapping to the program is a mapping, what is a tuple or a list is a sequence, and what can be gone through and
is no iterator has its elements there to be read.
-/

namespace Conformance

/-- Is this the class of a native error? -/
def ClassId.isNativeError (c : ClassId) : Bool := NativeClass.errorClasses.any (·.id == c)

/-- Is this the class of a native one-shot iterator?  Such a class has a method for the next element. -/
def ClassId.isNativeIterator (c : ClassId) : Bool :=
  NativeClass.table.any fun n => n.id == c && n.members.contains "__next__"

namespace Value

/-- Is it a native value without parts? -/
def isAtom : Value → Bool
  | null | bool _ | int _ | float _ | complex _ _ | fraction _ _ | decimal _ | str _ | bytes _ _ | range _ _ _
  | blank .object | stream _ _ | classObject _ | moduleObject _ | builtin _ | function _ _ | date _ _ _
  | datetime _ | path _ | pattern _ => true
  | _ => false

/-- Is it a one-shot iterator or stream? -/
def isOneShot : Value → Bool
  | iterator _ _ | stream _ _ => true
  | _ => false

/-- The value is made of native ones, and refers to none but the given cells. -/
inductive BuiltIn (cells : Nat → Prop) : Value → Prop
  | atom {v : Value} (h : v.isAtom = true) : BuiltIn cells v
  | sequence {kind : SequenceKind} {items : List Value} (hkind : kind ≠ .toArray ∧ kind ≠ .enumeration)
      (hitems : ∀ x ∈ items, BuiltIn cells x) : BuiltIn cells (.sequence kind items)
  | mapping {kind : MappingKind} {entries : List (Value × Value)} (hkind : kind ≠ .toHash)
      (hkeys : ∀ e ∈ entries, BuiltIn cells e.1) (hvalues : ∀ e ∈ entries, BuiltIn cells e.2) :
      BuiltIn cells (.mapping kind entries)
  | iterator {kind : IteratorKind} {rest : List Value}
      (hkind : (Value.iterator kind []).classOf.isNativeIterator = true)
      (hrest : ∀ x ∈ rest, BuiltIn cells x) : BuiltIn cells (.iterator kind rest)
  | error {c : ClassId} {args : List Value} (hc : c.isNativeError = true)
      (hargs : ∀ x ∈ args, BuiltIn cells x) : BuiltIn cells (.error c args)
  | cell {i : Nat} (hi : cells i) : BuiltIn cells (.cell i)

end Value

namespace World

/-- The given cells hold built-in values, and no references to others. -/
def BuiltIn (w : World) (cells : Nat → Prop) : Prop :=
  ∀ i, cells i → (w.resolve (.cell i)).BuiltIn cells ∧ (w.resolve (.cell i)).isCell = false

variable {w : World} {cells : Nat → Prop}

theorem resolve_of_isCell {v : Value} (h : v.isCell = false) : w.resolve v = v := by
  cases v <;> first | rfl | exact nomatch h

theorem BuiltIn.resolve (hw : w.BuiltIn cells) {v : Value} (hv : v.BuiltIn cells) :
    (w.resolve v).BuiltIn cells ∧ (w.resolve v).isCell = false := by
  cases hcell : v.isCell with
  | false =>
    rw [resolve_of_isCell hcell]
    exact ⟨hv, hcell⟩
  | true =>
    cases hv with
    | cell hi => exact hw _ hi
    | atom h => cases v <;> simp_all [Value.isCell, Value.isAtom]
    | _ => simp [Value.isCell] at hcell

end World

namespace NativeClass

/-! ## Classes and shapes -/

/-- The classes of native values without parts. -/
def atomClasses : List ClassId :=
  ["NoneType", "bool", "int", "float", "complex", "str", "bytes", "bytearray", "memoryview", "range", "object",
    "type", "module", "builtin_function_or_method", "function"].map .builtin
  ++ [⟨"fractions", "Fraction"⟩, ⟨"decimal", "Decimal"⟩, ⟨"_io", "StringIO"⟩, abstractMetaClass,
    ⟨"datetime", "date"⟩, ⟨"datetime", "datetime"⟩, ⟨"pathlib", "PurePosixPath"⟩, ⟨"re", "Pattern"⟩]

theorem isNative_atomClasses : ∀ c ∈ atomClasses, c.isNative = true := by decide

theorem isNative_root : root.isNative = true := by decide

theorem isNative_sequence (kind : SequenceKind) :
    kind ≠ .toArray ∧ kind ≠ .enumeration → kind.classId.isNative = true := by
  cases kind <;> decide

theorem isNative_mapping (kind : MappingKind) : kind ≠ .toHash → kind.classId.isNative = true := by
  cases kind <;> decide

theorem isNative_of_mem {n : NativeClass} (hn : n ∈ table) : n.id.isNative = true :=
  List.find?_isSome.2 ⟨n, hn, beq_self_eq_true n.id⟩

theorem errorClasses_subset_table : errorClasses ⊆ table := by
  intro n hn
  simp only [table, List.mem_append]
  exact .inl (.inl (.inr hn))

/-- The classes that no error is an instance of. -/
def collections : List ClassId :=
  [.builtin "tuple", .builtin "list", .container "Mapping", .container "Iterable"]

/-- The classes that no one-shot iterator is an instance of. -/
def solidCollections : List ClassId := [.builtin "tuple", .builtin "list", .container "Mapping"]

/-- The classes of native values without parts that have elements all the same. -/
def rowClasses : List ClassId := ["str", "bytes", "bytearray", "memoryview", "range"].map .builtin

/-- Which of the collections the classes of errors, of one-shot iterators and of values without parts come under.  Of the
last, only those of rows can be gone through. -/
theorem isSubclass_table :
    (∀ n ∈ errorClasses, ∀ c ∈ collections, ({} : Program).isSubclass n.id c = false) ∧
    (∀ n ∈ table, n.members.contains "__next__" = true →
      ({} : Program).isSubclass n.id (.container "Iterator") = true ∧
        ∀ c ∈ solidCollections, ({} : Program).isSubclass n.id c = false) ∧
    ∀ c ∈ atomClasses, (∀ d ∈ solidCollections, ({} : Program).isSubclass c d = false) ∧
      (({} : Program).isSubclass c (.container "Iterable") = true →
        ({} : Program).isSubclass c (.container "Iterator") = false → c ∈ rowClasses) := by
  decide +kernel

theorem isSubclass_sequence (kind : SequenceKind) :
    ({} : Program).isSubclass kind.classId (.container "Mapping") = false := by
  cases kind <;> decide

theorem isSubclass_mapping (kind : MappingKind) :
    ({} : Program).isSubclass kind.classId (.builtin "tuple") = false
      ∧ ({} : Program).isSubclass kind.classId (.builtin "list") = false := by
  cases kind <;> decide

/-- The methods by which a sequence is looked into. -/
def sequenceMethods : List String := ["__iter__", "__len__"]

theorem member?_sequence (kind : SequenceKind) :
    kind ≠ .toArray ∧ kind ≠ .enumeration →
      ∀ name ∈ sequenceMethods, (({} : Program).member? kind.classId name).isSome = true := by
  cases kind <;> decide

/-- The methods by which a mapping is looked into. -/
def mappingMethods : List String := ["__iter__", "__getitem__", "__contains__", "keys"]

theorem member?_mapping (kind : MappingKind) :
    kind ≠ .toHash → ∀ name ∈ mappingMethods, (({} : Program).member? kind.classId name).isSome = true := by
  cases kind <;> decide

theorem member?_rows : ∀ c ∈ rowClasses, (({} : Program).member? c "__iter__").isSome = true := by decide

end NativeClass

namespace Value

variable {cells : Nat → Prop} {v : Value}

theorem classOf_mem_of_isAtom (h : v.isAtom = true) : v.classOf ∈ NativeClass.atomClasses := by
  cases v with
  | bytes kind data => cases kind <;> simp [classOf, BytesKind.classId, NativeClass.atomClasses]
  | blank kind => cases kind <;> simp_all [isAtom, classOf, NativeClass.root, NativeClass.atomClasses]
  | classObject c =>
    simp only [classOf, metaOf]
    split <;> simp [NativeClass.metaClass, NativeClass.atomClasses]
  | _ => simp_all [isAtom, classOf, NativeClass.atomClasses]

theorem classOf_iterator (kind : IteratorKind) (rest : List Value) :
    (iterator kind rest).classOf = (iterator kind []).classOf := by
  cases kind <;> rfl

theorem exists_of_isNativeIterator {c : ClassId} (h : c.isNativeIterator = true) :
    ∃ n ∈ NativeClass.table, n.id = c ∧ n.members.contains "__next__" = true := by
  obtain ⟨n, hn, hc⟩ := List.any_eq_true.1 h
  rw [Bool.and_eq_true] at hc
  exact ⟨n, hn, beq_iff_eq.1 hc.1, hc.2⟩

theorem exists_of_isNativeError {c : ClassId} (h : c.isNativeError = true) :
    ∃ n ∈ NativeClass.errorClasses, n.id = c := by
  obtain ⟨n, hn, hc⟩ := List.any_eq_true.1 h
  exact ⟨n, hn, beq_iff_eq.1 hc⟩

theorem isNative_classOf (hv : v.BuiltIn cells) : v.classOf.isNative = true := by
  cases hv with
  | atom h => exact NativeClass.isNative_atomClasses _ (classOf_mem_of_isAtom h)
  | sequence hkind => exact NativeClass.isNative_sequence _ hkind
  | mapping hkind => exact NativeClass.isNative_mapping _ hkind
  | @iterator kind rest hkind =>
    obtain ⟨n, hn, hid, -⟩ := exists_of_isNativeIterator hkind
    rw [classOf_iterator kind rest, ← hid]
    exact NativeClass.isNative_of_mem hn
  | error hc =>
    obtain ⟨n, hn, hid⟩ := exists_of_isNativeError hc
    rw [classOf, ← hid]
    exact NativeClass.isNative_of_mem (NativeClass.errorClasses_subset_table hn)
  | cell => exact NativeClass.isNative_root

/-! ## Shapes -/

/-- Only collections with elements of their own are instances of their classes. -/
theorem isSolid_of_isSubclass (hv : v.BuiltIn cells) (hcell : v.isCell = false) {d : ClassId}
    (hd : d ∈ NativeClass.solidCollections) (h : ({} : Program).isSubclass v.classOf d = true) :
    (∃ kind items, v = .sequence kind items) ∨ ∃ kind entries, v = .mapping kind entries := by
  have habsurd : ∀ c, v.classOf = c → ({} : Program).isSubclass c d = false → False :=
    fun c hc hfalse => Bool.false_ne_true (hfalse.symm.trans (hc ▸ h))
  cases hv with
  | atom hatom =>
    exact (habsurd _ rfl ((NativeClass.isSubclass_table.2.2 _ (classOf_mem_of_isAtom hatom)).1 d hd)).elim
  | sequence => exact .inl ⟨_, _, rfl⟩
  | mapping => exact .inr ⟨_, _, rfl⟩
  | @iterator kind rest hkind =>
    obtain ⟨n, hn, hid, hnext⟩ := exists_of_isNativeIterator hkind
    have hc := (classOf_iterator kind rest).trans hid.symm
    exact (habsurd _ hc ((NativeClass.isSubclass_table.2.1 n hn hnext).2 d hd)).elim
  | error hc =>
    obtain ⟨n, hn, hid⟩ := exists_of_isNativeError hc
    have hmem : d ∈ NativeClass.collections := by
      simp only [NativeClass.solidCollections, NativeClass.collections, List.mem_cons] at hd ⊢
      tauto
    exact (habsurd _ hid.symm (NativeClass.isSubclass_table.1 n hn d hmem)).elim
  | cell => exact nomatch hcell

theorem items?_of_isAtom (h : v.isAtom = true) (hrow : v.classOf ∈ NativeClass.rowClasses) :
    v.isOneShot = false ∧ v.items?.isSome = true := by
  cases v with
  | classObject c =>
    simp only [classOf, metaOf] at hrow
    split at hrow <;>
      simp [NativeClass.metaClass, NativeClass.abstractMetaClass, NativeClass.rowClasses, ClassId.builtin] at hrow
  | blank kind =>
    cases kind <;> simp_all [isAtom, classOf, NativeClass.root, NativeClass.rowClasses, ClassId.builtin]
  | _ => simp_all [isAtom, isOneShot, items?, classOf, NativeClass.rowClasses, ClassId.builtin]

theorem BuiltIn.mem_items (hv : v.BuiltIn cells) {items : List Value} (h : v.items? = some items) :
    ∀ x ∈ items, x.BuiltIn cells := by
  intro x hx
  cases hv with
  | atom hatom =>
    refine .atom ?_
    cases v <;> simp only [items?, rangeItems, Option.some.injEq, reduceCtorEq, isAtom] at h hatom
    all_goals
      subst h
      obtain ⟨y, -, rfl⟩ := List.mem_map.1 hx
      rfl
  | sequence _ hitems =>
    cases h
    exact hitems x hx
  | @mapping kind entries hkind hkeys =>
    cases kind with
    | toHash => exact absurd rfl hkind
    | _ =>
      cases h
      obtain ⟨e, he, rfl⟩ := List.mem_map.1 hx
      exact hkeys e he
  | iterator _ hrest =>
    cases h
    exact hrest x hx
  | error => exact nomatch h
  | cell => exact nomatch h

end Value

namespace Program

open Value

variable {p : Program} {cells : Nat → Prop} {v : Value}

/-- What is a mapping to the program is a mapping. -/
theorem Separate.eq_mapping (hp : p.Separate) (hv : v.BuiltIn cells) (hcell : v.isCell = false)
    (h : p.isInstance v (.container "Mapping") = true) :
    ∃ kind entries, v = .mapping kind entries ∧ kind ≠ .toHash := by
  rw [hp.isInstance_eq (isNative_classOf hv) (by decide)] at h
  obtain ⟨kind, items, rfl⟩ | ⟨kind, entries, rfl⟩ := isSolid_of_isSubclass hv hcell (by decide) h
  · exact absurd h (by simp [classOf, NativeClass.isSubclass_sequence])
  · cases hv with
    | atom hatom => exact nomatch hatom
    | mapping hkind => exact ⟨kind, entries, rfl, hkind⟩

/-- What is a tuple or a list to the program is a sequence. -/
theorem Separate.eq_sequence (hp : p.Separate) (hv : v.BuiltIn cells) (hcell : v.isCell = false)
    (h : p.isInstance v (.builtin "tuple") = true ∨ p.isInstance v (.builtin "list") = true) :
    ∃ kind items, v = .sequence kind items ∧ kind ≠ .toArray ∧ kind ≠ .enumeration := by
  rw [hp.isInstance_eq (isNative_classOf hv) (by decide), hp.isInstance_eq (isNative_classOf hv) (by decide)] at h
  have hsolid : (∃ kind items, v = .sequence kind items) ∨ ∃ kind entries, v = .mapping kind entries := by
    rcases h with h | h
    · exact isSolid_of_isSubclass hv hcell (by decide) h
    · exact isSolid_of_isSubclass hv hcell (by decide) h
  obtain ⟨kind, items, rfl⟩ | ⟨kind, entries, rfl⟩ := hsolid
  · cases hv with
    | atom hatom => exact nomatch hatom
    | sequence hkind => exact ⟨kind, items, rfl, hkind⟩
  · simp [classOf, NativeClass.isSubclass_mapping] at h

/-- What can be gone through and is no iterator has its elements there to be read. -/
theorem Separate.items?_of_iterable (hp : p.Separate) (hv : v.BuiltIn cells) (hcell : v.isCell = false)
    (h : p.isInstance v (.container "Iterable") = true) (h' : p.isInstance v (.container "Iterator") = false) :
    v.isOneShot = false ∧ (p.member? v.classOf "__iter__").isSome = true ∧ v.items?.isSome = true := by
  have hnative := isNative_classOf hv
  rw [hp.isInstance_eq hnative (by decide)] at h h'
  rw [hp.member?_eq hnative (by decide)]
  cases hv with
  | atom hatom =>
    have hrow := (NativeClass.isSubclass_table.2.2 _ (classOf_mem_of_isAtom hatom)).2 h h'
    obtain ⟨honce, hitems⟩ := items?_of_isAtom hatom hrow
    exact ⟨honce, NativeClass.member?_rows _ hrow, hitems⟩
  | @sequence kind items hkind =>
    exact ⟨rfl, NativeClass.member?_sequence kind hkind _ (by decide), rfl⟩
  | @mapping kind entries hkind =>
    refine ⟨rfl, NativeClass.member?_mapping kind hkind _ (by decide), ?_⟩
    cases kind with
    | toHash => exact absurd rfl hkind
    | _ => rfl
  | @iterator kind rest hkind =>
    obtain ⟨n, hn, hid, hnext⟩ := exists_of_isNativeIterator hkind
    rw [classOf_iterator kind rest, ← hid, (NativeClass.isSubclass_table.2.1 n hn hnext).1] at h'
    exact nomatch h'
  | error hc =>
    obtain ⟨n, hn, hid⟩ := exists_of_isNativeError hc
    rw [classOf, ← hid, NativeClass.isSubclass_table.1 n hn _ (by decide)] at h
    exact nomatch h
  | cell => exact nomatch hcell

end Program

end Conformance
