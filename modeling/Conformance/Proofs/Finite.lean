import Conformance.Proofs.Inspection
import Conformance.Proofs.Strides

/-!
# Finite values

A value is finite if it is built in and nested at most so many levels deep, whether its parts stand in it or in cells
(`Value.Finite`).  Text and bytes are not made of parts.  A finite collection is one that fits into a memory: it has no
more elements than positions of a sample can tell apart.  What it has as keys, or as elements of a set, can be keys
(`Value.IsKey`): they have a hash and equal themselves.

Two finite values can be compared if the program may go that deep, and every key of a finite mapping is found in it.
So nothing fails that a judgement asks a finite mapping for.

What is judged along with a value is a `Part` of it.  `Throughout` says that something holds of a value and of all that it
is made of.
-/

namespace Conformance

/-- Do the instances of a native class have a hash? -/
def ClassId.isHashable (c : ClassId) : Bool :=
  match ({} : Program).member? c "__hash__" with
  | some .disabled => false
  | _ => true

namespace Value

variable {w : World} {n : Nat} {v : Value}

/-- The value has a hash; that of a tuple is made of those of its elements. -/
inductive Hashable (w : World) : Value → Prop
  | tuple {items : List Value} (hitems : ∀ x ∈ items, Hashable w x) : Hashable w (.sequence .tuple items)
  | single {v : Value} (htuple : ∀ items, v ≠ .sequence .tuple items)
      (h : (w.resolve v).classOf.isHashable = true) : Hashable w v

/-- The value can be a key: it has a hash, and it equals itself. -/
structure IsKey (w : World) (v : Value) : Prop where
  hash : v.Hashable w
  self : v.equal v = true

/-- Is it a native value that is judged by elements or bounds that are not parts of it? -/
def isRow : Value → Bool
  | range _ _ _ | bytes .memoryview _ => true
  | _ => false

/-- The number of elements that the value keeps; those of a range are computed. -/
def held : Value → Nat
  | bytes _ data => data.length
  | sequence _ items => items.length
  | mapping _ entries => entries.length
  | _ => 0

/-- The value is made of native ones that are nested at most so many levels deep. -/
inductive Finite (w : World) : Nat → Value → Prop
  | atom {n : Nat} {v : Value} (h : v.isAtom = true) (hrow : v.isRow = false) : Finite w n v
  | row {n : Nat} {v : Value} (hrow : v.isRow = true) (hsize : v.held ≤ Sampling.preciseLimit) :
      Finite w (n + 1) v
  | sequence {n : Nat} {kind : SequenceKind} {items : List Value} (hkind : kind ≠ .toArray ∧ kind ≠ .enumeration)
      (hsize : items.length ≤ Sampling.preciseLimit) (hitems : ∀ x ∈ items, Finite w n x)
      (hset : kind = .set ∨ kind = .frozenset → ∀ x ∈ items, x.IsKey w) : Finite w (n + 1) (.sequence kind items)
  | mapping {n : Nat} {kind : MappingKind} {entries : List (Value × Value)} (hkind : kind ≠ .toHash)
      (hsize : entries.length ≤ Sampling.preciseLimit) (hkeys : ∀ e ∈ entries, Finite w n e.1)
      (hvalues : ∀ e ∈ entries, Finite w n e.2) (hkey : ∀ e ∈ entries, e.1.IsKey w) :
      Finite w (n + 1) (.mapping kind entries)
  | iterator {n : Nat} {kind : IteratorKind} {rest : List Value}
      (hkind : (Value.iterator kind []).classOf.isNativeIterator = true) (hrest : ∀ x ∈ rest, Finite w n x) :
      Finite w (n + 1) (.iterator kind rest)
  | error {n : Nat} {c : ClassId} {args : List Value} (hc : c.isNativeError = true)
      (hargs : ∀ x ∈ args, Finite w n x) : Finite w (n + 1) (.error c args)
  | cell {n i : Nat} (hcell : (w.resolve (.cell i)).isCell = false) (h : Finite w n (w.resolve (.cell i))) :
      Finite w n (.cell i)

namespace Finite

theorem mono {m : Nat} (h : v.Finite w n) (hle : n ≤ m) : v.Finite w m := by
  induction h generalizing m with
  | atom h hrow => exact .atom h hrow
  | cell hcell _ ih => exact .cell hcell (ih hle)
  | row hrow hsize =>
    obtain ⟨k, rfl⟩ : ∃ k, m = k + 1 := ⟨m - 1, by omega⟩
    exact .row hrow hsize
  | sequence hkind hsize _ hset ih =>
    obtain ⟨k, rfl⟩ : ∃ k, m = k + 1 := ⟨m - 1, by omega⟩
    exact .sequence hkind hsize (fun x hx => ih x hx (by omega)) hset
  | mapping hkind hsize _ _ hkey ihkeys ihvalues =>
    obtain ⟨k, rfl⟩ : ∃ k, m = k + 1 := ⟨m - 1, by omega⟩
    exact .mapping hkind hsize (fun e he => ihkeys e he (by omega)) (fun e he => ihvalues e he (by omega)) hkey
  | iterator hkind _ ih =>
    obtain ⟨k, rfl⟩ : ∃ k, m = k + 1 := ⟨m - 1, by omega⟩
    exact .iterator hkind fun x hx => ih x hx (by omega)
  | error hc _ ih =>
    obtain ⟨k, rfl⟩ : ∃ k, m = k + 1 := ⟨m - 1, by omega⟩
    exact .error hc fun x hx => ih x hx (by omega)

theorem resolve (h : v.Finite w n) : (w.resolve v).Finite w n := by
  cases h with
  | cell _ h => exact h
  | atom h hrow =>
    cases v with
    | cell => exact nomatch h
    | _ => exact .atom h hrow
  | row hrow hsize =>
    cases v with
    | cell => exact nomatch hrow
    | _ => exact .row hrow hsize
  | sequence hkind hsize hitems hset => exact .sequence hkind hsize hitems hset
  | mapping hkind hsize hkeys hvalues hkey => exact .mapping hkind hsize hkeys hvalues hkey
  | iterator hkind hrest => exact .iterator hkind hrest
  | error hc hargs => exact .error hc hargs

/-- The elements of a finite sequence are nested one level less deep. -/
theorem items {kind : SequenceKind} {items : List Value} (h : (Value.sequence kind items).Finite w n) :
    ∃ m, n = m + 1 ∧ (∀ x ∈ items, x.Finite w m)
      ∧ (kind = .set ∨ kind = .frozenset → ∀ x ∈ items, x.IsKey w) := by
  cases h with
  | atom h => exact nomatch h
  | row hrow => exact nomatch hrow
  | sequence _ _ hitems hset => exact ⟨_, rfl, hitems, hset⟩

variable {kind : MappingKind} {es : List (Value × Value)}

/-- The keys and values of a finite mapping are nested one level less deep, and the keys can be keys. -/
theorem entries (h : (Value.mapping kind es).Finite w n) :
    ∃ m, n = m + 1 ∧ ∀ e ∈ es, e.1.Finite w m ∧ e.2.Finite w m ∧ e.1.IsKey w := by
  cases h with
  | atom h => exact nomatch h
  | row hrow => exact nomatch hrow
  | mapping _ _ hkeys hvalues hkey => exact ⟨_, rfl, fun e he => ⟨hkeys e he, hvalues e he, hkey e he⟩⟩

theorem kind_ne (h : (Value.mapping kind es).Finite w n) : kind ≠ .toHash := by
  cases h with
  | atom h => exact nomatch h
  | row hrow => exact nomatch hrow
  | mapping hkind => exact hkind

/-- The keys of a finite mapping are a finite collection. -/
theorem keysView (h : (Value.mapping kind es).Finite w n) : (Program.keysView kind es).Finite w n := by
  cases h with
  | atom h => exact nomatch h
  | row hrow => exact nomatch hrow
  | mapping _ hsize hkeys =>
    refine .sequence ?_ ?_ (fun x hx => ?_) fun hset => ?_
    · cases kind <;> decide
    · rwa [List.length_map]
    · obtain ⟨e, he, rfl⟩ := List.mem_map.1 hx
      exact hkeys e he
    · cases kind <;> exact absurd hset (by decide)

end Finite

/-- Is it a collection whose elements are looked at one by one? -/
def isCollection : Value → Bool
  | sequence _ _ | mapping _ _ | bytes .memoryview _ => true
  | _ => false

/-- The elements of a finite collection are nested one level less deep. -/
theorem Finite.elements {items : List Value} (h : v.Finite w n) (hv : v.isCollection = true)
    (hitems : v.items? = some items) :
    ∃ m, n = m + 1 ∧ (∀ x ∈ items, x.Finite w m) ∧ items.length ≤ Sampling.preciseLimit := by
  cases h with
  | atom hatom hrow =>
    cases v with
    | bytes kind data => cases kind <;> simp_all [isCollection, isRow]
    | _ => simp_all [isCollection, isAtom]
  | @row n v hrow hsize =>
    cases v with
    | bytes kind data =>
      cases hitems
      refine ⟨n, rfl, fun x hx => ?_, ?_⟩
      · obtain ⟨b, -, rfl⟩ := List.mem_map.1 hx
        exact .atom rfl rfl
      · rwa [List.length_map]
    | _ => simp_all [isCollection, isRow]
  | sequence _ hsize hparts =>
    cases hitems
    exact ⟨_, rfl, hparts, hsize⟩
  | @mapping n kind entries hkind hsize hkeys =>
    have hfst : items = entries.map (·.1) := by
      cases kind with
      | toHash => exact absurd rfl hkind
      | _ => exact (Option.some.inj hitems).symm
    subst hfst
    refine ⟨n, rfl, fun x hx => ?_, ?_⟩
    · obtain ⟨e, he, rfl⟩ := List.mem_map.1 hx
      exact hkeys e he
    · rwa [List.length_map]
  | iterator | error | cell => cases hv

/-! ## What a value is made of -/

/-- What is judged along with a value: elements, keys and values, and the bounds of a range. -/
inductive Part : Value → Value → Prop
  | element {v x : Value} {items : List Value} (hv : v.isCollection = true) (hitems : v.items? = some items)
      (hx : x ∈ items) : Part v x
  | key {kind : MappingKind} {entries : List (Value × Value)} {e : Value × Value} (he : e ∈ entries) :
      Part (.mapping kind entries) e.1
  | value {kind : MappingKind} {entries : List (Value × Value)} {e : Value × Value} (he : e ∈ entries) :
      Part (.mapping kind entries) e.2
  | start {start stop step : Int} : Part (.range start stop step) (.int start)
  | stop {start stop step : Int} : Part (.range start stop step) (.int stop)

theorem BuiltIn.part {cells : Nat → Prop} {x : Value} (hv : v.BuiltIn cells) (hx : v.Part x) : x.BuiltIn cells := by
  cases hx with
  | element _ hitems hx => exact hv.mem_items hitems _ hx
  | key he => exact (hv.entries _ he).1
  | value he => exact (hv.entries _ he).2
  | start | stop => exact .atom rfl

/-- The parts of a finite value are nested one level less deep.  The bounds of a range are counted as parts of it. -/
theorem Finite.part {x : Value} (h : v.Finite w n) (hx : v.Part x) : ∃ m, n = m + 1 ∧ x.Finite w m := by
  cases hx with
  | element hcollection hitems hx =>
    obtain ⟨m, hm, helements, -⟩ := h.elements hcollection hitems
    exact ⟨m, hm, helements _ hx⟩
  | key he =>
    obtain ⟨m, hm, hentries⟩ := h.entries
    exact ⟨m, hm, (hentries _ he).1⟩
  | value he =>
    obtain ⟨m, hm, hentries⟩ := h.entries
    exact ⟨m, hm, (hentries _ he).2.1⟩
  | start | stop =>
    cases h with
    | atom _ hrow => cases hrow
    | row => exact ⟨_, rfl, .atom rfl rfl⟩

/-- What a value is made of: what a cell holds now, and the parts of a value. -/
inductive Comprises (w : World) : Value → Value → Prop
  | cell (i : Nat) : Comprises w (.cell i) (w.resolve (.cell i))
  | part {v x : Value} (h : v.Part x) : Comprises w v x

/-- The value has the property, and so has everything that it is made of, at any depth. -/
def Throughout (w : World) (Q : Value → Prop) (v : Value) : Prop :=
  ∀ u, Relation.ReflTransGen (Comprises w) v u → Q u

section Throughout

variable {Q Q' : Value → Prop} {u : Value}

theorem Throughout.here (h : v.Throughout w Q) : Q v := h v .refl

theorem Throughout.mono (h : v.Throughout w Q) (hQ : ∀ u, Q u → Q' u) : v.Throughout w Q' := fun u hu => hQ u (h u hu)

theorem Throughout.comprised (h : v.Throughout w Q) (hu : Comprises w v u) : u.Throughout w Q :=
  fun x hx => h x (.head hu hx)

theorem Throughout.part (h : v.Throughout w Q) (hu : v.Part u) : u.Throughout w Q := h.comprised (.part hu)

theorem throughout_of_comprised (h : Q v) (hparts : ∀ u, Comprises w v u → u.Throughout w Q) : v.Throughout w Q := by
  intro x hx
  rcases Relation.ReflTransGen.cases_head hx with rfl | ⟨u, hu, hx⟩
  · exact h
  · exact hparts u hu x hx

theorem Throughout.resolve (h : v.Throughout w Q) : (w.resolve v).Throughout w Q := by
  cases v with
  | cell i => exact h.comprised (.cell i)
  | _ => exact h

theorem throughout_atom (hatom : v.isAtom = true) (hrow : v.isRow = false) (h : Q v) : v.Throughout w Q := by
  refine throughout_of_comprised h fun u hu => ?_
  cases hu with
  | cell => cases hatom
  | part hpart =>
    cases hpart with
    | element hcollection =>
      cases v with
      | bytes kind data => cases kind <;> simp_all [isCollection, isRow]
      | _ => simp_all [isCollection, isAtom]
    | key | value => cases hatom
    | start | stop => cases hrow

theorem throughout_sequence {kind : SequenceKind} {items : List Value} (h : Q (.sequence kind items))
    (hitems : ∀ x ∈ items, x.Throughout w Q) : (Value.sequence kind items).Throughout w Q := by
  refine throughout_of_comprised h fun u hu => ?_
  obtain ⟨_⟩ | ⟨⟨-, hitems', hx⟩⟩ := hu
  cases hitems'
  exact hitems u hx

theorem throughout_mapping {kind : MappingKind} {entries : List (Value × Value)} (hkind : kind ≠ .toHash)
    (h : Q (.mapping kind entries)) (hentries : ∀ e ∈ entries, e.1.Throughout w Q ∧ e.2.Throughout w Q) :
    (Value.mapping kind entries).Throughout w Q := by
  refine throughout_of_comprised h fun u hu => ?_
  obtain ⟨_⟩ | ⟨⟨-, hitems, hx⟩ | he | he⟩ := hu
  · have hkeys : (Value.mapping kind entries).items? = some (entries.map (·.1)) := by
      cases kind with
      | toHash => exact absurd rfl hkind
      | _ => rfl
    cases hkeys.symm.trans hitems
    obtain ⟨e, he, rfl⟩ := List.mem_map.1 hx
    exact (hentries e he).1
  · exact (hentries _ he).1
  · exact (hentries _ he).2

/-- The keys of a mapping are made of what it is made of. -/
theorem Throughout.keysView {kind : MappingKind} {entries : List (Value × Value)}
    (h : (Value.mapping kind entries).Throughout w Q) (hQ : Q (Program.keysView kind entries)) :
    (Program.keysView kind entries).Throughout w Q := by
  refine throughout_of_comprised hQ fun u hu => ?_
  generalize hview : Program.keysView kind entries = view at hu
  cases hu with
  | cell => cases hview
  | part hpart =>
    cases hpart with
    | element _ hitems hx =>
      subst hview
      cases hitems
      obtain ⟨e, he, rfl⟩ := List.mem_map.1 hx
      exact h.part (.key he)
    | key | value | start | stop => cases hview

/-- A finite value is made of finite ones. -/
theorem Finite.throughout (h : v.Finite w n) : v.Throughout w fun u => ∃ m, u.Finite w m := by
  intro u hu
  induction hu with
  | refl => exact ⟨n, h⟩
  | tail _ hstep ih =>
    obtain ⟨m, hm⟩ := ih
    cases hstep with
    | cell i => exact ⟨m, hm.resolve⟩
    | part hpart =>
      obtain ⟨k, -, hk⟩ := hm.part hpart
      exact ⟨k, hk⟩

end Throughout

end Value

namespace World

/-- The cells that hold finite values. -/
def finiteCells (w : World) (i : Nat) : Prop := ∃ n, (Value.cell i).Finite w n

end World

namespace Value

variable {w : World} {n : Nat} {v : Value}

/-- A finite value is built in, and refers to cells that hold finite values. -/
theorem Finite.builtIn (h : v.Finite w n) : v.BuiltIn w.finiteCells := by
  induction h with
  | atom h => exact .atom h
  | @row _ v hrow =>
    refine .atom ?_
    cases v <;> first | rfl | exact nomatch hrow
  | sequence hkind _ _ _ ih => exact .sequence hkind ih
  | mapping hkind _ _ _ _ ihkeys ihvalues => exact .mapping hkind ihkeys ihvalues
  | iterator hkind _ ih => exact .iterator hkind ih
  | error hc _ ih => exact .error hc ih
  | cell hcell h => exact .cell ⟨_, .cell hcell h⟩

/-- What is seen of a finite value is finite. -/
theorem Finite.view {u : Value} (h : v.Finite w n) (hu : (w.resolve v).core = u) : u.Finite w n := by
  rw [h.resolve.builtIn.core_eq] at hu
  exact hu ▸ h.resolve

end Value

theorem World.builtIn_finiteCells (w : World) : w.BuiltIn w.finiteCells := by
  rintro i ⟨n, h⟩
  cases h with
  | atom h => exact nomatch h
  | row hrow => exact nomatch hrow
  | cell hcell h => exact ⟨h.builtIn, hcell⟩

namespace Value

/-! ## Values that equal themselves -/

theorem equal_int_self (n : Int) : (int n).equal (int n) = true := by
  simp [equal, core, sameNumber, extent?, ratio?]

theorem equal_tuple (vs ws : List Value) : (sequence .tuple vs).equal (sequence .tuple ws) = equalAll vs ws := by
  rw [equal]
  rfl

theorem equalAll_self_iff {vs : List Value} : equalAll vs vs = true ↔ ∀ x ∈ vs, x.equal x = true := by
  induction vs with
  | nil => simp [equalAll]
  | cons v vs ih => rw [equalAll, Bool.and_eq_true, ih, List.forall_mem_cons]

/-- The key of a record type is finite, and can be a key. -/
theorem builtIn_ofKey {cells : Nat → Prop} (key : Key) : (ofKey key).BuiltIn cells := .atom (by cases key <;> rfl)

theorem finite_ofKey {w : World} {n : Nat} (key : Key) : (ofKey key).Finite w n := by
  cases key <;> exact .atom rfl rfl

theorem isKey_ofKey {w : World} (key : Key) : (ofKey key).IsKey w := by
  have hself : (ofKey key).equal (ofKey key) = true := by
    cases key <;> simp [ofKey, equal, core, sameNumber, extent?, ratio?]
  have htuple : ∀ items, ofKey key ≠ .sequence .tuple items := by
    intro items h
    cases key <;> cases h
  refine ⟨.single htuple ?_, hself⟩
  cases key with
  | int n => exact (by decide : (ClassId.builtin "int").isHashable = true)
  | str s => exact (by decide : (ClassId.builtin "str").isHashable = true)
  | bool b => exact (by decide : (ClassId.builtin "bool").isHashable = true)

/-- The elements of a tuple that can be a key can be keys. -/
theorem IsKey.element {w : World} {items : List Value} (h : (sequence .tuple items).IsKey w) :
    ∀ x ∈ items, x.IsKey w := by
  have hself := h.self
  rw [equal_tuple, equalAll_self_iff] at hself
  cases h.hash with
  | tuple hitems => exact fun x hx => ⟨hitems x hx, hself x hx⟩
  | single htuple => exact absurd rfl (htuple items)

theorem not_isKey {w : World} {v : Value} (hcell : v.isCell = false) (htuple : ∀ items, v ≠ .sequence .tuple items)
    (h : v.classOf.isHashable = false) : ¬ v.IsKey w := by
  intro hkey
  cases hkey.hash with
  | tuple => exact htuple _ rfl
  | single _ hclass =>
    rw [World.resolve_of_isCell hcell, h] at hclass
    exact nomatch hclass

theorem not_isKey_sequence {w : World} {kind : SequenceKind} {items : List Value}
    (h : kind.classId.isHashable = false) : ¬ (sequence kind items).IsKey w := by
  refine not_isKey rfl (fun is htuple => ?_) h
  cases htuple
  exact absurd h (by decide)

theorem isHashable_mapping (kind : MappingKind) : kind ≠ .toHash → kind.classId.isHashable = false := by
  cases kind <;> decide

theorem not_isKey_mapping {w : World} {kind : MappingKind} {entries : List (Value × Value)} (hkind : kind ≠ .toHash) :
    ¬ (mapping kind entries).IsKey w :=
  not_isKey rfl (fun _ h => nomatch h) (isHashable_mapping kind hkind)

end Value

namespace World

theorem same_self (w : World) {v : Value} (h : v.equal v = true) : w.same v v = true := by
  rw [same, h, Bool.true_or]

end World

namespace Program

open Run Value

variable {p : Program} {w : World} {cells : Nat → Prop} {v : Value} {call : Caller} {n : Nat}

/-! ## Hashes -/

section Hashes

variable {sure : Prop}

theorem settles_foreseen {α : Type} {m : Run α} {Q : α → Prop} (hm : Settles w sure m Q) :
    Settles w sure (foreseen m) Q :=
  settles_get_bind (hm.bind fun _ ha => settles_of_run rfl ha)

theorem settles_hashedAll {vs : List Value}
    (h : ∀ x ∈ vs, Settles w sure (p.hashed call x) fun hash => x.equal x = true → hash.equal hash = true) :
    Settles w sure (p.hashedAll call vs) fun hashes => equalAll vs vs = true → equalAll hashes hashes = true := by
  induction vs with
  | nil =>
    rw [hashedAll]
    exact settles_pure fun h => h
  | cons x xs ih =>
    have hrest := ih fun y hy => h y (List.mem_cons_of_mem x hy)
    rw [hashedAll]
    refine (h x List.mem_cons_self).bind fun hash hhash => hrest.bind fun hashes hhashes => settles_pure ?_
    rw [equalAll, equalAll, Bool.and_eq_true, Bool.and_eq_true]
    exact fun hself => ⟨hhash hself.1, hhashes hself.2⟩

variable (hp : p.Separate) (hw : w.BuiltIn cells)
include hp hw

theorem Separate.settles_ownHash (hv : v.BuiltIn cells) (h : sure → (w.resolve v).classOf.isHashable = true) :
    Settles w sure (p.ownHash call v (w.resolve v)) fun hash => v.equal v = true → hash.equal hash = true := by
  have hnative := Value.isNative_classOf (hw.resolve hv).1
  rw [ownHash]
  split
  · rename_i hdisabled
    refine settles_throw (fun hsure => ?_) _
    have hhashable := h hsure
    rw [hp.member?_eq hnative (by decide)] at hdisabled
    rw [ClassId.isHashable, hdisabled] at hhashable
    cases hhashable
  · rename_i hmember
    obtain ⟨-, _, h⟩ | ⟨-, h⟩ := hp.member?_cases hnative hmember
    · cases h
    · cases h
  · split
    · exact settles_pure fun _ => equal_int_self _
    · exact settles_pure fun hself => hself

/-- A built-in value is hashed if it has a hash, and the hash equals itself if the value does. -/
theorem Separate.settles_hashed (hv : v.BuiltIn cells) (h : sure → v.Hashable w) :
    Settles w sure (p.hashed call v) fun hash => v.equal v = true → hash.equal hash = true := by
  induction hv with
  | @sequence kind items hkind hitems ih =>
    rw [hashed.eq_def]
    split
    · rename_i heq
      cases heq
      have hall (hsure : sure) : ∀ x ∈ items, x.Hashable w := by
        cases h hsure with
        | tuple hhash => exact hhash
        | single htuple => exact absurd rfl (htuple items)
      refine (settles_hashedAll fun x hx => ih x hx fun hsure => hall hsure x hx).bind fun hashes hhashes => ?_
      refine settles_pure ?_
      rw [equal_tuple, equal_tuple]
      exact hhashes
    · rename_i hother
      refine settles_get_bind (hp.settles_ownHash hw (.sequence hkind hitems) fun hsure => ?_)
      cases h hsure with
      | tuple => exact absurd rfl (hother _)
      | single _ hclass => exact hclass
  | atom hatom =>
    rw [hashed.eq_def]
    split
    · cases hatom
    · refine settles_get_bind (hp.settles_ownHash hw (.atom hatom) fun hsure => ?_)
      cases h hsure with
      | tuple => cases hatom
      | single _ hclass => exact hclass
  | mapping hkind hkeys hvalues =>
    refine settles_get_bind (hp.settles_ownHash hw (.mapping hkind hkeys hvalues) fun hsure => ?_)
    cases h hsure with
    | single _ hclass => exact hclass
  | iterator hkind hrest =>
    refine settles_get_bind (hp.settles_ownHash hw (.iterator hkind hrest) fun hsure => ?_)
    cases h hsure with
    | single _ hclass => exact hclass
  | error hc hargs =>
    refine settles_get_bind (hp.settles_ownHash hw (.error hc hargs) fun hsure => ?_)
    cases h hsure with
    | single _ hclass => exact hclass
  | cell hi =>
    refine settles_get_bind (hp.settles_ownHash hw (.cell hi) fun hsure => ?_)
    cases h hsure with
    | single _ hclass => exact hclass

end Hashes

/-! ## Comparing parts -/

/-- The value is built in, and nested at most so many levels deep where that is sure. -/
structure Sized (cells : Nat → Prop) (w : World) (sure : Prop) (n : Nat) (v : Value) : Prop where
  builtIn : v.BuiltIn cells
  finite : sure → v.Finite w n

/-- So is the value, and where that is sure it can be a key. -/
structure SizedKey (cells : Nat → Prop) (w : World) (sure : Prop) (n : Nat) (v : Value) : Prop extends
    Sized cells w sure n v where
  isKey : sure → v.IsKey w

theorem sizedKey_ofKey {sure : Prop} (key : Key) : SizedKey cells w sure n (ofKey key) :=
  ⟨⟨builtIn_ofKey key, fun _ => finite_ofKey key⟩, fun _ => isKey_ofKey key⟩

/-- The comparison settles values that are nested less deep than `n` levels.  It finds what can be a key equal to
itself. -/
def AlikeBelow (cells : Nat → Prop) (w : World) (sure : Prop) (n : Nat) (alike : Value → Value → Run Bool) : Prop :=
  ∀ m, (sure → m < n) → ∀ {x y : Value}, Sized cells w sure m x → Sized cells w sure m y →
    Settles w sure (alike x y) fun b => sure → x = y → x.IsKey w → b = true

/-- The search settles keys that are nested less deep than `n` levels.  It finds a key that is there. -/
def PlacesBelow (cells : Nat → Prop) (w : World) (sure : Prop) (n : Nat)
    (place : List Value → Value → Run (Option Nat)) : Prop :=
  ∀ m, (sure → m < n) → ∀ {keys : List Value} {key : Value}, (∀ k ∈ keys, SizedKey cells w sure m k) →
    SizedKey cells w sure m key → Settles w sure (place keys key) fun r => sure → key ∈ keys → r.isSome = true

section Parts

variable {sure : Prop} {alike : Value → Value → Run Bool} {place : List Value → Value → Run (Option Nat)}
  {vs ws : List Value}

/-- What is seen of a value. -/
theorem Sized.view (hw : w.BuiltIn cells) (h : Sized cells w sure n v) {u : Value} (hu : (w.resolve v).core = u) :
    Sized cells w sure n u := by
  refine ⟨?_, fun hsure => (h.finite hsure).view hu⟩
  have hresolved := (hw.resolve h.builtIn).1
  rw [hresolved.core_eq] at hu
  exact hu ▸ hresolved

/-- The elements of a sequence are nested one level less deep. -/
theorem Sized.items {kind : SequenceKind} (h : Sized cells w sure n (.sequence kind vs)) :
    (sure → n - 1 < n) ∧ (∀ x ∈ vs, Sized cells w sure (n - 1) x) ∧
      (kind = .set ∨ kind = .frozenset → ∀ x ∈ vs, SizedKey cells w sure (n - 1) x) := by
  have hbuiltIn : ∀ x ∈ vs, x.BuiltIn cells := h.builtIn.mem_items rfl
  by_cases hsure : sure
  · obtain ⟨m, rfl, hitems, hset⟩ := (h.finite hsure).items
    exact ⟨fun _ => Nat.lt_succ_self m, fun x hx => ⟨hbuiltIn x hx, fun _ => hitems x hx⟩,
      fun hkind x hx => ⟨⟨hbuiltIn x hx, fun _ => hitems x hx⟩, fun _ => hset hkind x hx⟩⟩
  · exact ⟨fun h => absurd h hsure, fun x hx => ⟨hbuiltIn x hx, fun h => absurd h hsure⟩,
      fun _ x hx => ⟨⟨hbuiltIn x hx, fun h => absurd h hsure⟩, fun h => absurd h hsure⟩⟩

/-- So are the keys and values of a mapping. -/
theorem Sized.entries {kind : MappingKind} {es : List (Value × Value)} (h : Sized cells w sure n (.mapping kind es)) :
    (sure → n - 1 < n) ∧ ∀ e ∈ es, SizedKey cells w sure (n - 1) e.1 ∧ Sized cells w sure (n - 1) e.2 := by
  have hbuiltIn := h.builtIn.entries
  by_cases hsure : sure
  · obtain ⟨m, rfl, hentries⟩ := (h.finite hsure).entries
    refine ⟨fun _ => Nat.lt_succ_self m, fun e he => ?_⟩
    obtain ⟨hkey, hvalue, hisKey⟩ := hentries e he
    exact ⟨⟨⟨(hbuiltIn e he).1, fun _ => hkey⟩, fun _ => hisKey⟩, (hbuiltIn e he).2, fun _ => hvalue⟩
  · exact ⟨fun h => absurd h hsure, fun e he => ⟨⟨⟨(hbuiltIn e he).1, fun h => absurd h hsure⟩, fun h => absurd h hsure⟩,
      (hbuiltIn e he).2, fun h => absurd h hsure⟩⟩

theorem Sized.key {kind : MappingKind} {es : List (Value × Value)} {k : Value} (h : Sized cells w sure n (.mapping kind es))
    (hk : k ∈ es.map (·.1)) : SizedKey cells w sure n k := by
  obtain ⟨e, he, rfl⟩ := List.mem_map.1 hk
  have hkey := (h.entries.2 e he).1
  exact ⟨⟨hkey.builtIn, fun hsure => (hkey.finite hsure).mono (Nat.sub_le n 1)⟩, hkey.isKey⟩

theorem settles_agree
    (h : ∀ x ∈ vs, ∀ y ∈ ws, Settles w sure (alike x y) fun b => sure → x = y → x.IsKey w → b = true) :
    Settles w sure (agree alike vs ws) fun b => sure → vs = ws → (∀ x ∈ vs, x.IsKey w) → b = true := by
  induction vs generalizing ws with
  | nil => exact settles_pure fun _ _ _ => rfl
  | cons x xs ih =>
    cases ws with
    | nil => exact settles_pure fun _ _ _ => rfl
    | cons y ys =>
      have hrest := ih fun a ha b hb => h a (List.mem_cons_of_mem x ha) b (List.mem_cons_of_mem y hb)
      refine (h x List.mem_cons_self y List.mem_cons_self).bind fun b hb => ?_
      cases b with
      | true =>
        refine hrest.mono fun b hb hsure heq hkeys => ?_
        exact hb hsure (List.cons.inj heq).2 fun a ha => hkeys a (List.mem_cons_of_mem x ha)
      | false => exact settles_pure fun hsure heq hkeys => hb hsure (List.cons.inj heq).1 (hkeys x List.mem_cons_self)

section Sequences

variable {k l : SequenceKind} (hvs : Sized cells w sure n (.sequence k vs)) (hws : Sized cells w sure n (.sequence l ws))
include hvs hws

theorem AlikeBelow.settles_items (halike : AlikeBelow cells w sure n alike) :
    Settles w sure (agree alike vs ws) fun b => sure → vs = ws → (∀ x ∈ vs, x.IsKey w) → b = true := by
  obtain ⟨hlt, hleft, -⟩ := hvs.items
  obtain ⟨-, hright, -⟩ := hws.items
  exact settles_agree fun x hx y hy => halike (n - 1) hlt (hleft x hx) (hright y hy)

theorem PlacesBelow.settles_members (hplace : PlacesBelow cells w sure n place) (hk : k = .set ∨ k = .frozenset)
    (hl : l = .set ∨ l = .frozenset) :
    Settles w sure (if vs.length != ws.length then return false
      else vs.allM fun v => do return (← place ws v).isSome) fun b => sure → vs = ws → b = true := by
  obtain ⟨hlt, -, hleft⟩ := hvs.items
  obtain ⟨-, -, hright⟩ := hws.items
  split
  · rename_i hlength
    refine settles_pure fun _ heq => ?_
    rw [heq, bne_self_eq_false] at hlength
    exact nomatch hlength
  · refine (settles_allM (P := fun x => sure ∧ x ∈ ws) fun x hx => ?_).mono fun b hb hsure heq =>
      hb fun x hx => ⟨hsure, heq ▸ hx⟩
    exact (hplace (n - 1) hlt (hright hl) (hleft hk x hx)).bind fun r hr => settles_pure fun hmem => hr hmem.1 hmem.2

end Sequences

theorem AlikeBelow.settles_entries (halike : AlikeBelow cells w sure n alike) (hplace : PlacesBelow cells w sure n place)
    {kind k : MappingKind} {es fs : List (Value × Value)} (hes : Sized cells w sure n (.mapping kind es))
    (hfs : Sized cells w sure n (.mapping k fs)) :
    Settles w sure (es.allM fun e => do
      match (← place (fs.map (·.1)) e.1).bind fun i => fs[i]? with
      | some f => alike e.2 f.2
      | none => return false) fun _ => True := by
  obtain ⟨hlt, hleft⟩ := hes.entries
  obtain ⟨-, hright⟩ := hfs.entries
  have hkeys : ∀ x ∈ fs.map (·.1), SizedKey cells w sure (n - 1) x := by
    intro x hx
    obtain ⟨f, hf, rfl⟩ := List.mem_map.1 hx
    exact (hright f hf).1
  refine (settles_allM (P := fun _ => False) fun e he => ?_).mono fun _ _ => trivial
  refine (hplace (n - 1) hlt hkeys (hleft e he).1).bind fun found _ => ?_
  split
  · rename_i f hf
    obtain ⟨i, -, hi⟩ := Option.bind_eq_some_iff.1 hf
    have hvalue := (hright f (List.mem_of_getElem? hi)).2
    exact (halike (n - 1) hlt (hleft e he).2 hvalue).mono fun _ _ h => h.elim
  · exact settles_pure fun h => h.elim

/-- What a comparison finds of a finite value that can be a key and is not in a cell: it is equal to itself. -/
def Recognises (w : World) (sure : Prop) (a b : Value) (r : Bool) : Prop :=
  sure → a = b → a.isCell = false → a.IsKey w → r = true

theorem Sized.eq_view (hw : w.BuiltIn cells) (h : Sized cells w sure n v) {u : Value} (hu : (w.resolve v).core = u)
    (hcell : v.isCell = false) : v = u := by
  rwa [(hw.resolve h.builtIn).1.core_eq, World.resolve_of_isCell hcell] at hu

theorem recognises_of_not_isKey (hw : w.BuiltIn cells) {a b u : Value} (ha : Sized cells w sure n a)
    (hu : (w.resolve a).core = u) (hkey : sure → ¬ u.IsKey w) (r : Bool) : Recognises w sure a b r :=
  fun hsure _ hcell h => absurd (ha.eq_view hw hu hcell ▸ h) (hkey hsure)

/-- Built-in values are compared by comparing their parts. -/
theorem settles_nativeEqual (hw : w.BuiltIn cells) (halike : AlikeBelow cells w sure n alike)
    (hplace : PlacesBelow cells w sure n place) {a b : Value} (ha : Sized cells w sure n a)
    (hb : Sized cells w sure n b) : Settles w sure (nativeEqual alike place a b) (Recognises w sure a b) := by
  have hitems : ∀ {k l : SequenceKind} {vs ws : List Value}, (w.resolve a).core = .sequence k vs →
      (w.resolve b).core = .sequence l ws → a = b → vs = ws := by
    intro k l vs ws hvs hws heq
    rw [heq, hws] at hvs
    cases hvs
    rfl
  -- Lists and deques are no keys, so of them there is nothing to show but that the comparison settles them.
  have hlist : ∀ {k : SequenceKind} {vs ws : List Value}, k.classId.isHashable = false →
      (w.resolve a).core = .sequence k vs → (w.resolve b).core = .sequence k ws →
      Settles w sure (if vs.length == ws.length then agree alike vs ws else return false) (Recognises w sure a b) := by
    intro k vs ws hk hvs hws
    have hno := recognises_of_not_isKey (b := b) hw ha hvs fun _ => not_isKey_sequence hk
    exact ((halike.settles_items (ha.view hw hvs) (hb.view hw hws)).mono fun r _ => hno r).ite (settles_pure (hno false))
  have hset : ∀ {k l : SequenceKind} {vs ws : List Value}, k = .set ∨ k = .frozenset → l = .set ∨ l = .frozenset →
      (w.resolve a).core = .sequence k vs → (w.resolve b).core = .sequence l ws →
      Settles w sure (if vs.length != ws.length then return false
        else vs.allM fun v => do return (← place ws v).isSome) (Recognises w sure a b) := by
    intro k l vs ws hk hl hvs hws
    refine (hplace.settles_members (ha.view hw hvs) (hb.view hw hws) hk hl).mono fun r hr hsure heq _ _ => ?_
    exact hr hsure (hitems hvs hws heq)
  -- Neither is a number that is none.
  have hnan : ∀ {u : Value}, (w.resolve a).core = u → u.equal u = false →
      Settles w sure (pure false) (Recognises w sure a b) := by
    intro u hu hself
    refine settles_pure (recognises_of_not_isKey hw ha hu (fun _ hkey => ?_) false)
    exact Bool.false_ne_true (hself.symm.trans hkey.self)
  rw [nativeEqual]
  refine settles_get_bind ?_
  split
  case h_1 vs ws hvs hws =>
    refine (halike.settles_items (ha.view hw hvs) (hb.view hw hws)).bind fun r hr => ?_
    cases r with
    | true =>
      refine settles_pure fun _ heq _ _ => ?_
      rw [hitems hvs hws heq, beq_self_eq_true]
    | false =>
      refine settles_pure fun hsure heq hcell hkey => hr hsure (hitems hvs hws heq) ?_
      rw [ha.eq_view hw hvs hcell] at hkey
      exact hkey.element
  case h_2 vs ws hvs hws => exact hlist (by decide) hvs hws
  case h_3 vs ws hvs hws => exact hlist (by decide) hvs hws
  case h_4 vs ws hvs hws => exact hset (.inl rfl) (.inl rfl) hvs hws
  case h_5 vs ws hvs hws => exact hset (.inl rfl) (.inr rfl) hvs hws
  case h_6 vs ws hvs hws => exact hset (.inr rfl) (.inl rfl) hvs hws
  case h_7 vs ws hvs hws => exact hset (.inr rfl) (.inr rfl) hvs hws
  case h_8 kind es k fs hes hfs =>
    have hno := recognises_of_not_isKey (b := b) hw ha hes fun hsure =>
      not_isKey_mapping ((ha.view hw hes).finite hsure).kind_ne
    have hentries := halike.settles_entries hplace (ha.view hw hes) (hb.view hw hfs)
    exact (settles_pure (hno _)).ite (hentries.mono fun r _ => hno r)
  case h_9 u hu => exact hnan hu (by rw [equal]; rfl)
  case h_10 u hu => exact hnan hu (by rw [equal]; rfl)
  case h_11 =>
    refine settles_pure fun _ heq _ hkey => ?_
    rw [← heq]
    exact w.same_self hkey.self

end Parts

section Comparison

variable {sure : Prop} (hp : p.Separate) (hw : w.BuiltIn cells)
include hp hw

/-- A key is hashed, and its hash equals itself. -/
theorem Separate.settles_key {key : Value} (hkey : SizedKey cells w sure n key) :
    Settles w sure (p.hashed call key) fun hash =>
      (p.hashed call key).run.run w = (.ok hash, w) ∧ (sure → hash.equal hash = true) :=
  (hp.settles_hashed hw hkey.builtIn fun hsure => (hkey.isKey hsure).hash).told.mono fun _ h =>
    ⟨h.1, fun hsure => h.2 (hkey.isKey hsure).self⟩

/-- A key is looked for among others that have hashes.  It is found there if it is one of them. -/
theorem Separate.settles_placeBy {alike : Value → Value → Run Bool} {key hash : Value} {keys : List Value}
    (hhash : (p.hashed call key).run.run w = (.ok hash, w)) (hself : sure → hash.equal hash = true)
    (hkeys : ∀ k ∈ keys, SizedKey cells w sure n k)
    (halike : ∀ k ∈ keys, Settles w sure (alike k key) fun b => sure → k = key → k.IsKey w → b = true) :
    Settles w sure (p.placeBy call alike key hash keys) fun place =>
      (∀ i, place = some i → i < keys.length) ∧ (sure → key ∈ keys → place.isSome = true) := by
  induction keys with
  | nil => exact settles_pure ⟨fun i hi => (nomatch hi), fun _ hmem => (nomatch hmem)⟩
  | cons k ks ih =>
    have hrest := ih (fun x hx => hkeys x (List.mem_cons_of_mem k hx))
      fun x hx => halike x (List.mem_cons_of_mem k hx)
    have hother : Settles w sure (foreseen (p.hashed call k)) fun other => k = key → other = hash := by
      refine settles_foreseen ((hp.settles_key hw (hkeys k List.mem_cons_self)).mono fun other hfound hk => ?_)
      rw [hk, hhash] at hfound
      cases hfound.1
      rfl
    -- The rest is searched when this key is not the one.
    have hnext (hne : sure → k ≠ key) :
        Settles w sure (p.placeBy call alike key hash ks >>= fun place => pure (place.map (· + 1))) fun place =>
          (∀ i, place = some i → i < (k :: ks).length) ∧ (sure → key ∈ k :: ks → place.isSome = true) := by
      refine hrest.bind fun place hplace => settles_pure ⟨fun i hi => ?_, fun hsure hmem => ?_⟩
      · obtain ⟨j, hj, rfl⟩ := Option.map_eq_some_iff.1 hi
        exact Nat.succ_lt_succ (hplace.1 j hj)
      · rw [Option.isSome_map]
        exact hplace.2 hsure ((List.mem_cons.1 hmem).resolve_left fun h => hne hsure h.symm)
    rw [placeBy]
    refine hother.bind fun other hfound => settles_get_bind ?_
    split
    · refine (halike k List.mem_cons_self).bind fun b hb => ?_
      split
      · refine settles_pure ⟨fun i hi => ?_, fun _ _ => rfl⟩
        cases hi
        exact Nat.zero_lt_succ _
      · rename_i hunlike
        exact hnext fun hsure hk => hunlike (hb hsure hk ((hkeys k List.mem_cons_self).isKey hsure))
    · rename_i hdiffers
      refine hnext fun hsure hk => hdiffers ?_
      rw [hfound hk]
      exact w.same_self (hself hsure)

omit hp hw in
theorem isSame_self {v : Value} (h : v.isCell = true) : isSame v v = true := by
  cases v with
  | cell i => exact beq_self_eq_true i
  | _ => exact nomatch h

/-- Built-in values can be compared, if the program may go deeper than they are nested. -/
theorem Separate.settles_equals {depth : Nat} (hn : sure → n < depth) {a b : Value} (ha : Sized cells w sure n a)
    (hb : Sized cells w sure n b) : Settles w sure (p.equals call depth a b) (Recognises w sure a b) := by
  induction depth generalizing n a b with
  | zero => exact settles_throw (fun hsure => Nat.not_lt_zero n (hn hsure)) _
  | succ depth ih =>
    have halike : AlikeBelow cells w sure n fun x y => if isSame x y then pure true else p.equals call depth x y := by
      intro m hm x y hx hy
      dsimp only
      split
      · exact settles_pure fun _ _ _ => rfl
      · rename_i hdiffers
        have hdepth (hsure : sure) : m < depth := Nat.lt_of_lt_of_le (hm hsure) (Nat.le_of_lt_succ (hn hsure))
        refine (ih hdepth hx hy).mono fun b hb hsure heq hkey => hb hsure heq ?_ hkey
        rw [← heq] at hdiffers
        exact Bool.eq_false_iff.2 fun hcell => hdiffers (isSame_self hcell)
    have hplace : PlacesBelow cells w sure n fun keys key => foreseen (p.hashed call key) >>= fun hash =>
        p.placeBy call (fun x y => if isSame x y then pure true else p.equals call depth x y) key hash keys := by
      intro m hm keys key hkeys hkey
      refine (settles_foreseen (hp.settles_key hw hkey)).bind fun hash hhash => ?_
      refine (hp.settles_placeBy hw hhash.1 hhash.2 hkeys fun k hk => ?_).mono fun place hplace => hplace.2
      exact halike m hm (hkeys k hk).toSized hkey.toSized
    have hequal := settles_nativeEqual hw halike hplace ha hb
    rw [equals]
    refine settles_get_bind ?_
    have hnative := hequal.bind (R := fun r => ∀ x, r = some x → ∃ c, x = Value.bool c ∧ Recognises w sure a b c)
      fun c hc => settles_pure fun x hx => ⟨c, (Option.some.inj hx).symm, hc⟩
    refine (hp.settles_answered? hw ha.builtIn hb.builtIn
      (hnative.ite (settles_pure (a := none) fun x hx => by cases hx))).bind fun r hr => ?_
    cases r with
    | none => exact hequal
    | some x =>
      obtain ⟨c, rfl, hc⟩ := hr x rfl
      exact settles_of_run (hp.run_isTrue_bool hw c) hc

variable (hn : sure → n < p.depthLimit)
include hn

theorem Separate.settles_isAlike {a b : Value} (ha : Sized cells w sure n a) (hb : Sized cells w sure n b) :
    Settles w sure (p.isAlike call a b) fun r => sure → a = b → a.IsKey w → r = true := by
  rw [isAlike]
  split
  · exact settles_pure fun _ _ _ => rfl
  · rename_i hdiffers
    refine Settles.ite ?_ (settles_get_bind (settles_pure fun _ heq hkey => ?_))
    · refine (hp.settles_equals hw hn ha hb).mono fun r hr hsure heq hkey => hr hsure heq ?_ hkey
      rw [← heq] at hdiffers
      exact Bool.eq_false_iff.2 fun hcell => hdiffers (isSame_self hcell)
    · rw [← heq]
      exact w.same_self hkey.self

/-- A key is looked for among others, and found if it is one of them. -/
theorem Separate.settles_place? {keys : List Value} {key : Value} (hkeys : ∀ k ∈ keys, SizedKey cells w sure n k)
    (hkey : SizedKey cells w sure n key) :
    Settles w sure (p.place? p.invoke keys key) fun place => place = p.placeNow? w keys key ∧
      (∀ i, place = some i → i < keys.length) ∧ (sure → key ∈ keys → place.isSome = true) := by
  have hplace : Settles w sure (p.place? p.invoke keys key) fun place =>
      (∀ i, place = some i → i < keys.length) ∧ (sure → key ∈ keys → place.isSome = true) := by
    rw [place?]
    refine (hp.settles_key hw hkey).bind fun hash hhash => Settles.ite ?_ ?_
    · exact hp.settles_placeBy hw hhash.1 hhash.2 hkeys fun k hk =>
        hp.settles_isAlike hw hn (hkeys k hk).toSized hkey.toSized
    · refine settles_get_bind (settles_pure ⟨fun i hi => ?_, fun hsure hmem => ?_⟩)
      · exact (List.findIdx?_eq_some_iff_getElem.1 hi).1
      · rw [List.findIdx?_isSome, List.any_eq_true]
        exact ⟨key, hmem, w.same_self (hkey.isKey hsure).self⟩
  refine hplace.told.mono fun place hfound => ⟨?_, hfound.2⟩
  rw [placeNow?, hfound.1]

/-! ## Entries of mappings -/

section Entries

variable {kind : MappingKind} {entries : List (Value × Value)} {key : Value}
  (hv : Sized cells w sure n (.mapping kind entries)) (hkey : SizedKey cells w sure n key)
include hv hkey

theorem Separate.settles_place_entries :
    Settles w sure (p.place? p.invoke (entries.map (·.1)) key) fun place =>
      place = p.placeNow? w (entries.map (·.1)) key ∧ (∀ i, place = some i → i < entries.length) ∧
      (sure → key ∈ entries.map (·.1) → place.isSome = true) := by
  have hplace := hp.settles_place? hw hn (fun k hk => hv.key hk) hkey
  rwa [List.length_map] at hplace

theorem Separate.settles_lookup? :
    Settles w sure (p.lookup? p.invoke entries key) (· = p.entryNow? w entries key) := by
  rw [lookup?]
  refine (hp.settles_place_entries hw hn hv hkey).bind fun place hplace => settles_pure ?_
  rw [hplace.1, entryNow?]

/-- A finite mapping has something at each of its keys. -/
theorem Separate.isSome_entryNow? (hsure : sure) (hmem : key ∈ entries.map (·.1)) :
    (p.entryNow? w entries key).isSome = true := by
  obtain ⟨place, -, hnow, hlt, hfound⟩ := (hp.settles_place_entries hw hn hv hkey).answers hsure
  obtain ⟨i, rfl⟩ := Option.isSome_iff_exists.1 (hfound hsure hmem)
  rw [entryNow?, ← hnow, Option.isSome_map, Option.bind_some, isSome_getElem?]
  exact hlt i rfl

variable (hkind : kind ≠ .toHash)
include hkind

theorem Separate.settles_contains :
    Settles w sure (p.contains p.invoke (.mapping kind entries) key) (· = (p.entryNow? w entries key).isSome) := by
  obtain ⟨owner, hspecial⟩ := hp.run_special?_native (w := w) hv.builtIn rfl (by decide)
    (NativeClass.member?_mapping kind hkind "__contains__" (by decide))
  rw [contains]
  refine settles_get_bind ((settles_of_run hspecial rfl : Settles w sure _ (· = some _)).bind fun found hfound => ?_)
  subst hfound
  refine settles_get_bind ((hp.settles_lookup? hw hn hv hkey).bind fun r hr => settles_pure ?_)
  rw [hr]

/-- What a mapping has at a key can be taken from it. -/
theorem Separate.settles_item (hsome : sure → (p.entryNow? w entries key).isSome = true) :
    Settles w sure (p.item p.invoke (.mapping kind entries) key) fun x => p.entryNow? w entries key = some x := by
  obtain ⟨owner, hspecial⟩ := hp.run_special?_native (w := w) hv.builtIn rfl (by decide)
    (NativeClass.member?_mapping kind hkind "__getitem__" (by decide))
  have hmissing : Settles w sure (p.special? (.mapping kind entries) "__missing__") (· = none) :=
    settles_of_run (hp.run_special?_unknown hw hv.builtIn (by decide)) rfl
  rw [item]
  refine (settles_of_run hspecial rfl : Settles w sure _ (· = some _)).bind fun found hfound => ?_
  subst hfound
  refine settles_get_bind ((hp.settles_lookup? hw hn hv hkey).bind fun r hr => ?_)
  cases r with
  | some x => exact settles_pure hr.symm
  | none =>
    refine hmissing.bind fun method hmethod => ?_
    subst hmethod
    refine settles_throw (fun hsure => ?_) _
    have hfound := hsome hsure
    rw [← hr] at hfound
    cases hfound

end Entries

end Comparison

/-! ## Elements by position -/

section Position

variable {items : List Value} (hp : p.Separate) (hv : v.BuiltIn cells) (hcell : v.isCell = false)
  (hitems : v.items? = some items) (hmapping : ∀ kind entries, v ≠ .mapping kind entries)
  (hrange : ∀ start stop step, v ≠ .range start stop step)

include hv hitems hrange in
theorem nativeSize_eq : nativeSize v = items.length := by
  unfold nativeSize
  rw [hv.core_eq]
  split
  · exact absurd rfl (hrange _ _ _)
  · rw [hitems, Option.getD_some]

include hp in
theorem Separate.run_index (i : Nat) : ∃ owner,
    (p.special? (.int i) "__index__").run.run w = (.ok (some (.native owner "__index__" (.int i))), w) :=
  hp.run_special?_native (.atom rfl : (Value.int i).BuiltIn fun _ => False) rfl (by decide)
    (show (({} : Program).member? (.builtin "int") "__index__").isSome = true by decide)

theorem run_position (i : Nat) : (p.position call (.int i)).run.run w = (.ok (i : Int), w) := by
  rfl

include hp hv hcell hmapping in
theorem Separate.run_nativeItem (i : Nat) :
    (p.nativeItem call v (.int i)).run.run w =
      if largestSize < i && v.kindName != "range" then
        (.error (.builtin "IndexError" (doesNotFit (.int i))), w)
      else (itemAt v i).run.run w := by
  obtain ⟨owner, hindex⟩ := hp.run_index (w := w) i
  unfold nativeItem
  rw [run_bind, run_get]
  dsimp only
  rw [World.resolve_of_isCell hcell, hv.core_eq]
  split
  · exact absurd rfl (hmapping _ _)
  · rw [run_bind, hindex]
    dsimp only
    rw [run_bind, run_position]
    dsimp only
    rw [Int.natAbs_natCast]
    split
    · rfl
    · rfl

include hv hitems hrange in
theorem run_itemAt {i : Nat} {x : Value} (hx : items[i]? = some x) : (itemAt v i).run.run w = (.ok x, w) := by
  obtain ⟨hi, -⟩ := List.getElem?_eq_some_iff.1 hx
  unfold itemAt
  dsimp only
  have hpos : ¬ (i : Int) < 0 := by omega
  have hinside : ¬ (items.length : Int) ≤ i := by omega
  simp only [nativeSize_eq hv hitems hrange, hpos, if_false, hinside, decide_false, Bool.or_false, Bool.false_eq_true]
  rw [hitems, Option.getD_some, Int.toNat_natCast, hx]
  rfl

include hv hitems hrange in
theorem run_itemAt_outside {i : Nat} (hi : items.length ≤ i) :
    ∃ message, (itemAt v i).run.run w = (.error (.builtin "IndexError" message), w) := by
  unfold itemAt
  dsimp only
  have hpos : ¬ (i : Int) < 0 := by omega
  have houtside : (items.length : Int) ≤ i := by omega
  simp only [nativeSize_eq hv hitems hrange, hpos, if_false, houtside, decide_true, Bool.or_true, if_true]
  exact ⟨_, rfl⟩
end Position

/-- Going through the value gives these elements, not too many.  It says how many they are and, if it is a sequence,
gives each of them by its position, and none elsewhere. -/
structure Collects (p : Program) (w : World) (v : Value) (items : List Value) : Prop where
  length_le : items.length ≤ Sampling.preciseLimit
  feed : (p.feed p.invoke v).run.run w = (.ok (.known items), w)
  size : (p.size p.invoke v).run.run w = (.ok items.length, w)
  item : p.isInstance v (.container "Sequence") = true → ∀ (i : Nat) x, items[i]? = some x →
    (p.item p.invoke v (.int i)).run.run w = (.ok x, w)
  stray : p.isInstance v (.container "Sequence") = true → ∀ i, items.length ≤ i →
    ∃ message, (p.item p.invoke v (.int (i : Nat))).run.run w = (.error (.builtin "IndexError" message), w)

end Program

namespace NativeClass

/-- The classes of collections whose elements are looked at one by one. -/
def collectionClasses : List ClassId :=
  ["list", "tuple", "set", "frozenset", "dict_keys", "odict_keys", "dict", "mappingproxy", "memoryview"].map .builtin
  ++ [⟨"collections", "deque"⟩, ⟨"collections", "OrderedDict"⟩]

theorem member?_collections : ∀ c ∈ collectionClasses,
    (({} : Program).member? c "__iter__").isSome = true ∧ (({} : Program).member? c "__len__").isSome = true
      ∧ (({} : Program).isSubclass c (.container "Sequence") = true →
        (({} : Program).member? c "__getitem__").isSome = true) := by decide

theorem not_sequence_mapping (kind : MappingKind) :
    kind ≠ .toHash → ({} : Program).isSubclass kind.classId (.container "Sequence") = false := by
  cases kind <;> decide

end NativeClass

namespace Value

theorem BuiltIn.classOf_mem {cells : Nat → Prop} {v : Value} (h : v.BuiltIn cells) (hv : v.isCollection = true) :
    v.classOf ∈ NativeClass.collectionClasses := by
  cases h with
  | atom hatom =>
    cases v with
    | bytes kind data => cases kind <;> simp_all [isCollection, classOf, BytesKind.classId, NativeClass.collectionClasses]
    | _ => simp_all [isCollection, isAtom]
  | @sequence kind _ hkind =>
    cases kind <;> simp_all [classOf, SequenceKind.classId, NativeClass.collectionClasses]
  | @mapping kind _ hkind =>
    cases kind <;> simp_all [classOf, MappingKind.classId, NativeClass.collectionClasses]
  | iterator | error | cell => cases hv

/-- What has its elements there to be read is a collection, unless it is a range or a text, or can be gone through only
once. -/
theorem isCollection_of_items {v : Value} {items : List Value} (hitems : v.items? = some items)
    (honce : v.isOneShot = false) (hrange : ∀ start stop step, v ≠ .range start stop step) (hstr : ∀ s, v ≠ .str s)
    (hbytes : ∀ data, v ≠ .bytes .bytes data) (hbytearray : ∀ data, v ≠ .bytes .bytearray data) :
    v.isCollection = true := by
  cases v with
  | sequence | mapping => rfl
  | bytes kind data =>
    cases kind with
    | bytes => exact absurd rfl (hbytes data)
    | bytearray => exact absurd rfl (hbytearray data)
    | memoryview => rfl
  | str s => exact absurd rfl (hstr s)
  | range start stop step => exact absurd rfl (hrange start stop step)
  | iterator => cases honce
  | _ => cases hitems

theorem isCell_of_isCollection {v : Value} (h : v.isCollection = true) : v.isCell = false := by
  cases v with
  | cell => cases h
  | _ => rfl

theorem isOneShot_of_isCollection {v : Value} (h : v.isCollection = true) : v.isOneShot = false := by
  cases v with
  | iterator | stream => cases h
  | _ => rfl

theorem ne_range_of_isCollection {v : Value} (h : v.isCollection = true) (start stop step : Int) :
    v ≠ .range start stop step := by
  rintro rfl
  cases h

end Value

namespace Program

open Run Value

/-- A collection that is a sequence is asked for an element as native sequences are. -/
theorem Separate.run_item_native {p : Program} {w : World} {cells : Nat → Prop} {v : Value} (hp : p.Separate)
    (hv : v.BuiltIn cells) (hcollection : v.isCollection = true)
    (hsequence : p.isInstance v (.container "Sequence") = true) (i : Nat) :
    (p.item p.invoke v (.int i)).run.run w = (p.nativeItem p.invoke v (.int i)).run.run w
      ∧ ∀ kind entries, v ≠ .mapping kind entries := by
  obtain ⟨-, -, hgetitem⟩ := NativeClass.member?_collections _ (hv.classOf_mem hcollection)
  rw [hp.isInstance_eq (isNative_classOf hv) (by decide)] at hsequence
  obtain ⟨owner, hspecial⟩ := hp.run_special?_native (w := w) hv (isCell_of_isCollection hcollection) (by decide)
    (hgetitem hsequence)
  refine ⟨by rw [item, run_bind, hspecial], ?_⟩
  rintro kind entries rfl
  cases hv with
  | atom h => cases h
  | mapping hkind => exact Bool.false_ne_true ((NativeClass.not_sequence_mapping kind hkind).symm.trans hsequence)

/-- A built-in collection that is not too large gives its elements in every way in which it is asked for them. -/
theorem Separate.collects_of_length {p : Program} {w : World} {cells : Nat → Prop} {v : Value} {items : List Value}
    (hp : p.Separate) (hv : v.BuiltIn cells) (hcollection : v.isCollection = true) (hitems : v.items? = some items)
    (hsize : items.length ≤ Sampling.preciseLimit) : p.Collects w v items := by
  have hcell := isCell_of_isCollection hcollection
  have honce := isOneShot_of_isCollection hcollection
  have hrange := ne_range_of_isCollection hcollection
  obtain ⟨hiter, hlen, -⟩ := NativeClass.member?_collections _ (hv.classOf_mem hcollection)
  refine ⟨hsize, hp.run_feed hv hcell honce hiter hitems, ?_, fun hsequence i x hx => ?_, fun hsequence i hi => ?_⟩
  · rw [hp.run_size hv hcell hlen, nativeSize_eq hv hitems hrange]
  · obtain ⟨hrun, hmapping⟩ := hp.run_item_native (w := w) hv hcollection hsequence i
    obtain ⟨hi, -⟩ := List.getElem?_eq_some_iff.1 hx
    have hlargest : (Sampling.preciseLimit : Int) ≤ largestSize := by decide
    have hfits : ¬ largestSize < (i : Int) := by omega
    rw [hrun, hp.run_nativeItem hv hcell hmapping, decide_eq_false hfits, Bool.false_and]
    exact run_itemAt hv hitems hrange hx
  · obtain ⟨hrun, hmapping⟩ := hp.run_item_native (w := w) hv hcollection hsequence i
    rw [hrun, hp.run_nativeItem hv hcell hmapping]
    split
    · exact ⟨_, rfl⟩
    · exact run_itemAt_outside hv hitems hrange hi

theorem Separate.collects {p : Program} {w : World} {n : Nat} {v : Value} {items : List Value} (hp : p.Separate)
    (hv : v.Finite w n) (hcollection : v.isCollection = true) (hitems : v.items? = some items) :
    p.Collects w v items := by
  obtain ⟨m, -, -, hsize⟩ := hv.elements hcollection hitems
  exact hp.collects_of_length hv.builtIn hcollection hitems hsize

end Program

end Conformance
