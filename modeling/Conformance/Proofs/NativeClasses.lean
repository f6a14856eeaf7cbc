import Mathlib
import Conformance.Program.Lineage

/-!
# Native classes inside a program

A program declares classes of its own beside the native ones, and native classes may have more methods than the table
says.  As long as it declares none of the native ones anew, and none of those methods has a name that built-in values
are asked for (`Program.Separate`), a native class has in it the line, the members and the superclasses that it has in
the empty program, so what the table of native classes says holds in every program.
-/

namespace Conformance

/-- Is the class in the table of native classes? -/
def ClassId.isNative (c : ClassId) : Bool := (NativeClass.find? c).isSome

namespace NativeClass

/-! ## The table -/

theorem exists_of_isNative {c : ClassId} (h : c.isNative = true) :
    ∃ n ∈ table, n.id = c ∧ find? c = some n := by
  obtain ⟨n, hn⟩ := Option.isSome_iff_exists.1 h
  have hid := List.find?_some (show table.find? (·.id == c) = some n from hn)
  exact ⟨n, List.mem_of_find?_eq_some hn, beq_iff_eq.1 hid, hn⟩

/-- The special methods that no native class has. -/
def unknownMethods : List String := ["__eq__", "__bool__", "__missing__", "__getattr__", "__class__"]

/-- The names that built-in values are asked for. -/
def consulted : List String :=
  unknownMethods ++ ["__hash__", "__iter__", "__next__", "__len__", "__contains__", "__getitem__", "__index__", "keys"]

/-- The classes of the table are as it says, but for methods that no built-in value is asked for. -/
def Extends (natives : List NativeClass) : Prop :=
  ∀ c n, find? c = some n → ∃ more, (∀ name ∈ consulted, name ∉ more) ∧
    find? c natives = some { n with members := n.members ++ more }

theorem extends_table : Extends table := fun c n h => ⟨[], by simp, by simpa using h⟩

/-- The classes that built-in values are held to by name. -/
def examined : List ClassId :=
  [.builtin "tuple", .builtin "list", .container "Mapping", .container "Iterable", .container "Iterator",
    .container "Sequence"]

/-- Their protocols are of such methods only. -/
theorem protocol_examined :
    ∀ c ∈ examined, (find? c).any (fun n => n.protocol.all consulted.contains) = true := by decide +kernel

end NativeClass

/-- Does the line of a class end after at most so many generations? -/
def Program.isSettled : (depth : Nat) → ClassId → Bool
  | 0, c => (({} : Program).bases c).isEmpty
  | depth + 1, c => (({} : Program).bases c).all (isSettled depth)

namespace NativeClass

/-- What is found by going through the table once: classes lead to classes of the table only, and the lines of those
end; the one method that a class may disable is known, and so are some that no class has. -/
theorem table_sound : ∀ n ∈ table,
    (∀ b ∈ n.bases, b.isNative = true ∧ Program.isSettled 7 b = true) ∧ (∀ r ∈ n.registered, r.isNative = true) ∧
    (∀ name ∈ n.disabled, name = "__hash__") ∧ ∀ name ∈ unknownMethods, name ∉ n.members := by
  decide +kernel

theorem isNative_bases : ∀ n ∈ table, ∀ b ∈ n.bases, b.isNative = true :=
  fun n hn b hb => ((table_sound n hn).1 b hb).1

theorem isNative_registered : ∀ n ∈ table, ∀ r ∈ n.registered, r.isNative = true :=
  fun n hn => (table_sound n hn).2.1

theorem eq_hash_of_mem_disabled : ∀ n ∈ table, ∀ name ∈ n.disabled, name = "__hash__" :=
  fun n hn => (table_sound n hn).2.2.1

theorem not_mem_members_of_unknown : ∀ n ∈ table, ∀ name ∈ unknownMethods, name ∉ n.members :=
  fun n hn => (table_sound n hn).2.2.2

end NativeClass

namespace Program

open NativeClass

variable {d : ClassId} {found : Found} {name : String}

/-- The declared classes are none of the native ones, and these are as the table says. -/
structure Separate (p : Program) : Prop where
  declared : ∀ d ∈ p.classes, d.id.isNative = false
  library : Extends p.natives

theorem separate_empty : Separate {} := ⟨fun _ hd => (by cases hd), extends_table⟩

variable {p : Program} {c : ClassId}

/-! ## Lines -/

theorem bases_eq_of_find? {n : NativeClass} (h : find? c = some n) : ({} : Program).bases c = n.bases := by
  change ((find? c).map (·.bases)).getD [] = n.bases
  rw [h]
  rfl

/-- The line of a native class ends. -/
theorem isSettled_nativeDepth (hc : c.isNative = true) : isSettled nativeDepth c = true := by
  obtain ⟨n, hn, -, hfind⟩ := exists_of_isNative hc
  change (({} : Program).bases c).all (isSettled 7) = true
  rw [bases_eq_of_find? hfind]
  exact List.all_eq_true.2 fun b hb => ((table_sound n hn).1 b hb).2

theorem Separate.class?_eq_none (hp : p.Separate) (hc : c.isNative = true) : p.class? c = none := by
  refine List.find?_eq_none.2 fun d hd hid => ?_
  rw [← beq_iff_eq.1 hid, hp.declared d hd] at hc
  exact Bool.false_ne_true hc

theorem Separate.find?_eq (hp : p.Separate) (hc : c.isNative = true) :
    ∃ n ∈ table, ∃ more, find? c = some n ∧ (∀ name ∈ consulted, name ∉ more) ∧
      find? c p.natives = some { n with members := n.members ++ more } := by
  obtain ⟨n, hn, -, hfind⟩ := exists_of_isNative hc
  obtain ⟨more, hmore, hfind'⟩ := hp.library c n hfind
  exact ⟨n, hn, more, hfind, hmore, hfind'⟩

theorem Separate.bases_eq (hp : p.Separate) (hc : c.isNative = true) : p.bases c = ({} : Program).bases c := by
  obtain ⟨n, -, more, hfind, -, hfind'⟩ := hp.find?_eq hc
  rw [bases, hp.class?_eq_none hc, hfind', bases_eq_of_find? hfind]
  rfl

theorem isNative_of_mem_bases {b : ClassId} (hc : c.isNative = true) (hb : b ∈ ({} : Program).bases c) :
    b.isNative = true := by
  obtain ⟨n, hn, -, hfind⟩ := exists_of_isNative hc
  exact isNative_bases n hn b (bases_eq_of_find? hfind ▸ hb)

theorem Separate.lineTo_eq (hp : p.Separate) (depth : Nat) (hc : c.isNative = true) :
    p.lineTo depth c = ({} : Program).lineTo depth c := by
  induction depth generalizing c with
  | zero => rfl
  | succ depth ih =>
    have hlines : (({} : Program).bases c).map (p.lineTo depth)
        = (({} : Program).bases c).map (({} : Program).lineTo depth) :=
      List.map_congr_left fun b hb => ih (isNative_of_mem_bases hc hb)
    rw [lineTo, lineTo, hp.bases_eq hc, hlines]

theorem lineTo_add_of_isSettled {depth : Nat} (more : Nat) (h : isSettled depth c = true) :
    ({} : Program).lineTo (more + depth) c = ({} : Program).lineTo depth c := by
  induction depth generalizing c with
  | zero =>
    have hbases : ({} : Program).bases c = [] := List.isEmpty_iff.1 h
    cases more with
    | zero => rfl
    | succ more =>
      change c :: mergeLines _ ((({} : Program).bases c).map _ ++ [({} : Program).bases c]) = [c]
      rw [hbases]
      rfl
  | succ depth ih =>
    have hlines : (({} : Program).bases c).map (({} : Program).lineTo (more + depth))
        = (({} : Program).bases c).map (({} : Program).lineTo depth) :=
      List.map_congr_left fun b hb => ih (List.all_eq_true.1 h b hb)
    rw [← Nat.add_assoc, lineTo, lineTo, hlines]

/-- A native class has one line in all programs. -/
theorem Separate.line_eq (hp : p.Separate) (hc : c.isNative = true) : p.line c = ({} : Program).line c := by
  calc p.lineTo (p.classes.length + nativeDepth) c
      = ({} : Program).lineTo (p.classes.length + nativeDepth) c := hp.lineTo_eq _ hc
    _ = ({} : Program).lineTo nativeDepth c := lineTo_add_of_isSettled _ (isSettled_nativeDepth hc)
    _ = ({} : Program).lineTo (0 + nativeDepth) c := by rw [Nat.zero_add]

theorem mem_of_mem_mergeLines {fuel : Nat} {lists : List (List ClassId)} (h : d ∈ mergeLines fuel lists) :
    ∃ l ∈ lists, d ∈ l := by
  induction fuel generalizing lists with
  | zero => exact nomatch h
  | succ fuel ih =>
    rw [mergeLines] at h
    split at h
    · exact nomatch h
    · rename_i e he
      rcases List.mem_cons.1 h with rfl | hd
      · have hhead := List.mem_of_find?_eq_some he
        obtain ⟨l, hl, hl'⟩ := List.mem_filterMap.1 hhead
        exact ⟨l, hl, List.mem_of_mem_head? hl'⟩
      · obtain ⟨l', hl', hdl'⟩ := ih hd
        obtain ⟨l, hl, rfl⟩ := List.mem_map.1 hl'
        refine ⟨l, hl, ?_⟩
        split at hdl'
        · exact List.mem_of_mem_tail hdl'
        · exact hdl'

theorem isNative_of_mem_lineTo {depth : Nat} (hc : c.isNative = true) (hd : d ∈ ({} : Program).lineTo depth c) :
    d.isNative = true := by
  induction depth generalizing c d with
  | zero => exact List.mem_singleton.1 hd ▸ hc
  | succ depth ih =>
    rw [lineTo] at hd
    rcases List.mem_cons.1 hd with rfl | hd
    · exact hc
    obtain ⟨l, hl, hdl⟩ := mem_of_mem_mergeLines hd
    rcases List.mem_append.1 hl with hl | hl
    · obtain ⟨b, hb, rfl⟩ := List.mem_map.1 hl
      exact ih (isNative_of_mem_bases hc hb) hdl
    · rw [List.mem_singleton.1 hl] at hdl
      exact isNative_of_mem_bases hc hdl

theorem isNative_of_mem_line (hc : c.isNative = true) (hd : d ∈ ({} : Program).line c) : d.isNative = true :=
  isNative_of_mem_lineTo hc hd

/-! ## Members -/

section

variable (hp : p.Separate) (hc : c.isNative = true)

include hp hc

theorem Separate.ownMember?_eq (hname : name ∈ consulted) : p.ownMember? c name = ({} : Program).ownMember? c name := by
  obtain ⟨n, -, more, hfind, hmore, hfind'⟩ := hp.find?_eq hc
  rw [ownMember?, hp.class?_eq_none hc, hfind']
  change _ = (find? c).bind _
  rw [hfind]
  simp [hmore name hname]

/-- A native class has the same members in all programs, under the names that built-in values are asked for. -/
theorem Separate.member?_eq (hname : name ∈ consulted) : p.member? c name = ({} : Program).member? c name := by
  rw [member?, hp.line_eq hc, member?]
  have hline : ∀ d ∈ ({} : Program).line c, p.ownMember? d name = ({} : Program).ownMember? d name :=
    fun d hd => hp.ownMember?_eq (isNative_of_mem_line hc hd) hname
  generalize ({} : Program).line c = ds at hline
  induction ds with
  | nil => rfl
  | cons d ds ih =>
    have htail := ih fun e he => hline e (List.mem_cons_of_mem d he)
    rw [List.findSome?_cons, List.findSome?_cons, hline d List.mem_cons_self, htail]

theorem Separate.ownMember?_cases (h : p.ownMember? c name = some found) :
    (name ∉ unknownMethods ∧ found = .native c) ∨ (name = "__hash__" ∧ found = .disabled) := by
  obtain ⟨n, hn, more, -, hmore, hfind⟩ := hp.find?_eq hc
  rw [ownMember?, hp.class?_eq_none hc, hfind] at h
  dsimp only [Option.bind_some] at h
  split at h
  · rename_i hmem
    cases h
    refine .inl ⟨fun hunknown => ?_, rfl⟩
    rcases List.mem_append.1 (List.contains_iff_mem.1 hmem) with hmem | hmem
    · exact not_mem_members_of_unknown n hn name hunknown hmem
    · exact hmore name (List.mem_append_left _ hunknown) hmem
  split at h
  · rename_i hmem
    cases h
    exact .inr ⟨eq_hash_of_mem_disabled n hn name (List.contains_iff_mem.1 hmem), rfl⟩
  · cases h

/-- A native class has native methods only, and disables at most the hash. -/
theorem Separate.member?_cases (h : p.member? c name = some found) :
    (name ∉ unknownMethods ∧ ∃ owner, found = .native owner) ∨ (name = "__hash__" ∧ found = .disabled) := by
  rw [member?, hp.line_eq hc] at h
  obtain ⟨owner, howner, hown⟩ := List.exists_of_findSome?_eq_some h
  exact (hp.ownMember?_cases (isNative_of_mem_line hc howner) hown).imp_left fun h => ⟨h.1, owner, h.2⟩

theorem Separate.member?_eq_none (hname : name ∈ unknownMethods) : p.member? c name = none := by
  cases h : p.member? c name with
  | none => rfl
  | some found =>
    obtain ⟨hknown, -⟩ | ⟨rfl, -⟩ := hp.member?_cases hc h
    · exact absurd hname hknown
    · exact absurd hname (by decide)

theorem Separate.exists_native (hname : name ≠ "__hash__") (h : p.member? c name = some found) :
    ∃ owner, found = .native owner := by
  obtain ⟨-, howner⟩ | ⟨hhash, -⟩ := hp.member?_cases hc h
  · exact howner
  · exact absurd hhash hname

/-! ## Superclasses -/

theorem Separate.registrations_eq : p.registrations c = ({} : Program).registrations c := by
  obtain ⟨n, hn, more, hfind, -, hfind'⟩ := hp.find?_eq hc
  have hlines : ∀ r ∈ n.registered, p.line r = ({} : Program).line r :=
    fun r hr => hp.line_eq (isNative_registered n hn r hr)
  rw [registrations, registrations, hfind, hfind']
  exact List.flatMap_congr hlines

theorem Separate.implements_eq {names : List String}
    (hnames : names.all consulted.contains = true) : p.implements c names = ({} : Program).implements c names := by
  rw [implements, implements, Bool.eq_iff_iff, List.all_eq_true, List.all_eq_true]
  refine forall₂_congr fun name hname => ?_
  rw [hp.member?_eq hc (List.contains_iff_mem.1 (List.all_eq_true.1 hnames name hname))]

/-- A native class has the same superclasses in all programs, of those that built-in values are held to. -/
theorem Separate.isSubclass_eq (hd : d ∈ examined) : p.isSubclass c d = ({} : Program).isSubclass c d := by
  obtain ⟨n, hfind, hprotocol⟩ := (Option.any_eq_true _ _).1 (protocol_examined d hd)
  obtain ⟨more, -, hfind'⟩ := hp.library d n hfind
  have hregistered : (({} : Program).line c).flatMap p.registrations
      = (({} : Program).line c).flatMap ({} : Program).registrations :=
    List.flatMap_congr fun e he => hp.registrations_eq (isNative_of_mem_line hc he)
  simp only [isSubclass, hp.line_eq hc, hregistered, hfind, hfind', hp.implements_eq hc hprotocol]

end

/-- A value of a native class is an instance of the superclasses of its class. -/
theorem Separate.isInstance_eq (hp : p.Separate) {v : Value} (hv : v.classOf.isNative = true) (hd : d ∈ examined) :
    p.isInstance v d = ({} : Program).isSubclass v.classOf d := by
  rw [isInstance, hp.member?_eq_none hv (by decide), hp.isSubclass_eq hv hd]
  exact Bool.or_false _

end Program

end Conformance
