import Mathlib
import Conformance.Proofs.Caches
import Conformance.Proofs.NameCheck
import Conformance.Proofs.Slots

/-!
# Well-formed trees

What a tree has to satisfy so that it can be printed, resolved and checked without looking at it again: unions and
intersections have at least two parts, no two keys of a record are equal, no two keywords of a parameter list have one
name, every type variable is in scope and no class is taken for one.  It has to hold at every depth, and of what the
interfaces in the tree ask for as well, where each parameter list has type variables of its own.

Every tree that is read from a text is well formed (`parsed_well_formed`).  An interface that a registry keeps was read
before, so this takes an invariant of registries: what they keep is well formed (`Registry.KeepsSound`).
-/

namespace Conformance

variable {name : String}

/-! ## Well-formed trees -/

namespace Text

/-- A name without a leading `::`. -/
def unrooted (name : String) : String :=
  match name.toList with
  | ':' :: ':' :: cs => String.ofList cs
  | _ => name

/-- The part of a name after its last colon or dot. -/
def lastSegment (name : String) : String :=
  String.ofList (name.toList.reverse.takeWhile fun c => c != ':' && c != '.').reverse

end Text

/-- The names of the base types. -/
def Base.names : List String := ["top", "bot", "void", "bool", "boolish", "nil", "self", "instance", "class"]

/-- The block that a proc takes, if it takes one. -/
def TypeExpr.block? : TypeExpr → Option (Block TypeExpr)
  | proc _ _ block => block
  | _ => none

structure Params.WellFormed (p : Params TypeExpr) : Prop where
  keywords : (p.keywords.map (·.1)).Nodup
  trailing : p.trailing ≠ [] → p.optional ≠ [] ∨ p.rest.isSome = true

structure Block.WellFormed (b : Block TypeExpr) : Prop where
  params : b.params.WellFormed
  /-- A block takes no block. -/
  plain : b.proc.block? = none

namespace TypeExpr

/-- What has to hold of a node where some type variables are in scope, what stands in it apart. -/
def NodeWellFormed (names : List String) : TypeExpr → Prop
  | base b => b.text ∈ Base.names
  | classRef name _ => Text.unrooted name ∉ names ∧ (Text.lastSegment name).startsWith "_" = false
  | typeVar name => name ∈ names
  | union ts | intersection ts => 2 ≤ ts.length
  | record fields _ => fields.Pairwise fun f g => f.key.same g.key = false
  | proc params _ block => params.WellFormed ∧ ∀ b ∈ block, b.WellFormed
  | _ => True

/-- The parameter lists that an interface asks for. -/
def capabilityParams : TypeExpr → List (Params TypeExpr)
  | interface _ methods => methods.filterMap (·.params)
  | _ => []

/-- The type is well formed where some type variables are in scope.  Each parameter list of a capability has type
variables of its own. -/
inductive WellFormed : List String → TypeExpr → Prop
  | intro {names : List String} {t : TypeExpr} (node : t.NodeWellFormed names)
      (children : ∀ u ∈ t.children, WellFormed names u) (own : Params TypeExpr → List String)
      (lists : ∀ ps ∈ t.capabilityParams, ps.WellFormed)
      (capabilities : ∀ ps ∈ t.capabilityParams, ∀ u ∈ ps.types, WellFormed (own ps) u) : WellFormed names t

end TypeExpr

structure Signature.WellFormed (s : Signature) : Prop where
  typeParams : s.typeParams.Nodup
  params : s.params.WellFormed
  block : ∀ b ∈ s.block, b.WellFormed
  types : ∀ t ∈ s.types, t.WellFormed s.typeParams

/-! ## Names -/

namespace Spelling

variable {sp : Spelling}

theorem unrooted_text (hsp : sp.Valid) : Text.unrooted sp.qualified.text = sp.qualified.bare := by
  obtain ⟨c, cs, hfirst, hc, -⟩ := Text.isWord_iff.1 (Text.isName_iff.1 hsp.1).1
  have hbare : sp.qualified.bare.toList = _ := toList_foldl_extend sp.parts ⟨sp.first, sp.rooted, sp.first⟩
  rw [hfirst, List.cons_append] at hbare
  have hcolon : c ≠ ':' := by
    rintro rfl
    exact absurd hc (by decide)
  unfold Text.unrooted Parser.QualifiedName.text
  by_cases hrooted : sp.qualified.rooted = true
  · rw [if_pos hrooted, String.toList_append]
    exact String.ofList_toList
  · rw [if_neg hrooted, hbare]
    split
    · rename_i heq
      exact absurd (List.cons.inj heq).1 hcolon
    · rfl

theorem isWordPart_ne {c : Char} (h : Text.isWordPart c = true) : (c != ':' && c != '.') = true := by
  rw [Bool.and_eq_true, bne_iff_ne, bne_iff_ne]
  constructor
  · rintro rfl
    cases h
  · rintro rfl
    cases h

/-- The last part of a name follows its last colon or dot. -/
theorem lastSegment_eq {part : String} {before : List Char} (hname : name.toList = before ++ part.toList)
    (hpart : Text.isName part = true) (hbefore : ∀ c ∈ before.getLast?, c = ':' ∨ c = '.') :
    Text.lastSegment name = part := by
  have htake : (part.toList.reverse ++ before.reverse).takeWhile (fun c => c != ':' && c != '.') =
      part.toList.reverse := by
    refine Token.takeWhile_append_of_head (fun c hc => ?_) fun c hc => ?_
    · exact isWordPart_ne (Text.isWordPart_of_isWord (Text.isName_iff.1 hpart).1 (List.mem_reverse.1 hc))
    · rw [List.head?_reverse] at hc
      rcases hbefore c hc with rfl | rfl <;> rfl
  rw [Text.lastSegment, hname, List.reverse_append, htake, List.reverse_reverse, String.ofList_toList]

/-- What a qualified name is made of: its last part after what ends in a colon or a dot, or after nothing. -/
theorem exists_before_last (hsp : sp.Valid) : ∃ before : List Char, (∀ c ∈ before.getLast?, c = ':' ∨ c = '.') ∧
    sp.qualified.bare.toList = before ++ sp.qualified.last.toList ∧ Text.isName sp.qualified.last = true := by
  obtain ⟨rooted, first, parts⟩ := sp
  obtain ⟨hfirst, hparts⟩ := hsp
  dsimp only at hfirst hparts
  induction parts using List.reverseRecOn with
  | nil => exact ⟨[], by simp, rfl, hfirst⟩
  | append_singleton parts p ih =>
    obtain ⟨hlink, hname⟩ := hparts p (by simp)
    refine ⟨(Spelling.qualified ⟨rooted, first, parts⟩).bare.toList ++ p.1.chars, fun c hc => ?_, ?_, ?_⟩
    · obtain ⟨m, s⟩ := p
      rw [List.getLast?_append] at hc
      rcases Bool.or_eq_true_iff.1 hlink with h | h
      · rw [beq_iff_eq.1 h] at hc
        cases hc
        exact .inl rfl
      · rw [beq_iff_eq.1 h] at hc
        cases hc
        exact .inr rfl
    · simp [qualified, extend]
    · simpa [qualified, extend] using hname

theorem lastSegment_text (hsp : sp.Valid) : Text.lastSegment sp.qualified.text = sp.qualified.last := by
  obtain ⟨before, hbefore, hbare, hlast⟩ := exists_before_last hsp
  unfold Parser.QualifiedName.text
  by_cases hrooted : sp.qualified.rooted = true
  · rw [if_pos hrooted]
    refine @lastSegment_eq _ _ (':' :: ':' :: before) (by rw [String.toList_append, hbare]; rfl) hlast fun c hc => ?_
    rw [List.getLast?_cons_cons, List.getLast?_cons] at hc
    cases hend : before.getLast? with
    | none =>
      rw [hend] at hc
      exact .inl (Option.some.inj hc).symm
    | some d =>
      rw [hend] at hc
      exact hbefore c (hend.trans hc)
  · rw [if_neg hrooted]
    exact lastSegment_eq hbare hlast hbefore

end Spelling

/-! ## Trees that were read -/

/-- The parameter list is well formed, and so are its types where some type variables are in scope. -/
def Params.Sound (ps : Params TypeExpr) : Prop := ps.WellFormed ∧ ∃ names, ∀ u ∈ ps.types, u.WellFormed names

/-- All that the capabilities ask for is well formed. -/
def Capability.AllSound (methods : List (Capability TypeExpr)) : Prop := ∀ m ∈ methods, ∀ ps ∈ m.params, ps.Sound

theorem Params.Read.wellFormed {N : TypeExpr → Prop} {p : Params TypeExpr} (h : p.Read N) : p.WellFormed :=
  ⟨h.distinct, h.trailing⟩

theorem Block.wellFormed_of_read {N : TypeExpr → Prop} {b : Block TypeExpr} (h : b.params.Read N) : b.WellFormed :=
  ⟨h.wellFormed, rfl⟩

namespace TypeExpr

variable {names : List String} {resolve : String → Except Fault (List (Capability TypeExpr))} {t : TypeExpr}

theorem NodeRead.wellFormed (h : t.NodeRead ⟨names, resolve⟩) : t.NodeWellFormed names := by
  cases t with
  | base b =>
    change b.text ∈ Base.names
    cases b <;> decide
  | classRef name args =>
    obtain ⟨sp, hsp, rfl, hfree, hlast⟩ := h
    refine ⟨?_, ?_⟩
    · rw [Spelling.unrooted_text hsp]
      exact hfree
    · rw [Spelling.lastSegment_text hsp]
      exact hlast
  | typeVar name =>
    obtain ⟨sp, -, -, hname⟩ := h
    exact hname
  | union ts | intersection ts => exact h
  | record fields extra => exact h.1
  | proc params result block => exact ⟨h.1.wellFormed, fun b hb => Block.wellFormed_of_read (h.2 b hb)⟩
  | _ => trivial

theorem WellFormed.of_sound (node : t.NodeWellFormed names) (children : ∀ u ∈ t.children, u.WellFormed names)
    (hsound : ∀ ps ∈ t.capabilityParams, ps.Sound) : t.WellFormed names := by
  choose! own hown using fun ps hps => (hsound ps hps).2
  exact .intro node children own (fun ps hps => (hsound ps hps).1) hown

/-- What was read is well formed if what interfaces were found to ask for is. -/
theorem Read.wellFormed (hresolve : ∀ name methods, resolve name = .ok methods → Capability.AllSound methods)
    (h : t.Read ⟨names, resolve⟩) : t.WellFormed names := by
  induction t using childInduction with
  | step t ih =>
    obtain ⟨hnode, hchildren⟩ := everywhere_iff.1 h
    refine .of_sound hnode.wellFormed (fun u hu => ih u hu (hchildren u hu)) fun ps hps => ?_
    cases t with
    | interface name methods =>
      obtain ⟨-, -, -, -, -, hmethods⟩ := hnode
      obtain ⟨m, hm, hps⟩ := List.mem_filterMap.1 hps
      exact hresolve name methods hmethods m hm ps hps
    | _ => cases hps

end TypeExpr

namespace Registry

variable {methods : List (Capability TypeExpr)}

/-! ## What registries keep -/

variable {r r' : Registry}

/-- What a registry keeps of interfaces is well formed. -/
def KeepsSound (r : Registry) : Prop :=
  ∀ name k, r.interfaceNodes.find? name = some k → Capability.AllSound k.node

section

variable {resolve : Resolve} (hresolve : ∀ name methods, resolve name = .ok methods → Capability.AllSound methods)

include hresolve

theorem sound_of_readSignature {text : String} {s : Signature} (h : (readSignature resolve text).result = .ok s) : s.WellFormed := by
  have hread := readSignature_read h
  exact ⟨hread.distinct, hread.params.wellFormed, fun b hb => Block.wellFormed_of_read (hread.block b hb).1,
    fun t ht => (hread.types ht).wellFormed hresolve⟩

theorem sound_of_readCapability {d : CapabilityDecl} {m : Capability TypeExpr}
    (h : readCapability resolve d = .ok m) : ∀ ps ∈ m.params, ps.Sound := by
  unfold readCapability at h
  split at h
  · cases h
    rintro ps ⟨⟩
  · rename_i text _
    cases hread : (readParams resolve text).result with
    | error e =>
      rw [hread] at h
      cases h
    | ok s =>
      rw [hread] at h
      cases h
      rintro ps ⟨⟩
      have hs : s.WellFormed := sound_of_readSignature hresolve hread
      exact ⟨hs.params, s.typeParams, fun u hu => hs.types u (by simp [Signature.types, hu])⟩

theorem sound_of_mapM {decls : List CapabilityDecl} (h : decls.mapM (readCapability resolve) = .ok methods) :
    Capability.AllSound methods := by
  have hread := forall₂_of_mapM_ok h
  clear h
  induction hread with
  | nil => simp [Capability.AllSound]
  | cons hone _ ih => exact List.forall_mem_cons.2 ⟨sound_of_readCapability hresolve hone, ih⟩

end

theorem KeepsSound.interfaceAt (h : r.KeepsSound) (depth : Nat) (hmethods : r.interfaceAt depth name = .ok methods) :
    Capability.AllSound methods := by
  induction depth generalizing name methods with
  | zero => cases hmethods
  | succ depth ih =>
    rw [Registry.interfaceAt] at hmethods
    split at hmethods
    · rename_i kept hkept
      cases hmethods
      exact h name kept hkept
    · split at hmethods
      · cases hmethods
      · exact sound_of_mapM (fun _ _ hfound => ih hfound) hmethods

theorem KeepsSound.interfaceOf (h : r.KeepsSound) (hmethods : r.interfaceOf name = .ok methods) :
    Capability.AllSound methods :=
  h.interfaceAt _ hmethods

/-- Looking things up keeps what is found, and that is well formed. -/
theorem KeepsSound.of_nodes (h : r.KeepsSound) (mentions : List String)
    (hnodes : r'.interfaceNodes = (r.rememberAll mentions).interfaceNodes) : r'.KeepsSound := by
  intro name k hk
  rw [hnodes] at hk
  exact h.interfaceOf ((r.keeps_rememberAll mentions).found name k hk)

theorem interfaceNodes_resolveClass (r : Registry) (name : String) :
    (r.resolveClass name).2.1.interfaceNodes = r.interfaceNodes := by
  unfold resolveClass
  dsimp only
  split
  · rfl
  · split <;> rfl

theorem interfaceNodes_resolveAll (r : Registry) (names : List String) :
    (r.resolveAll names).2.1.interfaceNodes = r.interfaceNodes := by
  induction names generalizing r with
  | nil => rfl
  | cons name names ih =>
    have hone := r.interfaceNodes_resolveClass name
    rw [resolveAll]
    generalize r.resolveClass name = found at hone ⊢
    obtain ⟨e | t, after, log⟩ := found
    · exact hone
    · exact (ih after).trans hone

theorem KeepsSound.signature (h : r.KeepsSound) (text : String) : (r.signature text).2.1.KeepsSound := by
  unfold Registry.signature
  split
  · exact h
  · dsimp only
    split
    · exact h.of_nodes _ rfl
    · rename_i s _
      have hnodes := interfaceNodes_resolveAll (r.rememberAll (readSignature r.interfaceOf text).mentions)
        (s.classNames (r.rememberAll (readSignature r.interfaceOf text).mentions).isAlias)
      split <;> rename_i heq <;> rw [heq] at hnodes <;> exact h.of_nodes _ hnodes

theorem KeepsSound.expandAlias (h : r.KeepsSound) (name : String) : (r.expandAlias name).2.KeepsSound := by
  obtain hsame | ⟨text, after, rfl, hsame | ⟨kept, serial, -, -, hkept⟩⟩ := r.expandAlias_cases name
  · rwa [hsame]
  · rw [hsame]
    exact h.of_nodes _ rfl
  · rw [hkept]
    exact h.of_nodes _ rfl

theorem Reachable.keepsSound (h : Reachable r) : r.KeepsSound := by
  induction h with
  | initial =>
    intro name k hk
    cases hk
  | registerClass _ name v ih => exact ih
  | @registerInterface r r' _ name methods hr ih =>
    unfold Registry.registerInterface at hr
    split at hr
    · cases hr
      intro other k hk
      change (r.interfaceNodes.erase name).find? other = some k at hk
      by_cases hother : other = name
      · rw [hother, Table.find?_erase_self] at hk
        cases hk
      · rw [Table.find?_erase_of_ne _ hother] at hk
        exact ih other k hk
    · cases hr
  | registerAlias _ name text ih => exact ih
  | @interface r _ name ih =>
    refine ih.of_nodes [name] ?_
    unfold Registry.interface
    dsimp only
    split <;> rfl
  | parseType _ text typeParams ih => exact ih.of_nodes _ rfl
  | expandAlias _ name ih => exact ih.expandAlias name
  | resolveClass _ name ih =>
    intro other k hk
    rw [interfaceNodes_resolveClass] at hk
    exact ih other k hk
  | signature _ text ih => exact ih.signature text

/-- Every tree that is read from a text is well formed. -/
theorem parsed_well_formed (h : Reachable r) :
    (∀ text names t, (r.parseType text names).1 = .ok t → t.WellFormed names) ∧
      ∀ text s, (readSignature r.interfaceOf text).result = .ok s → s.WellFormed := by
  have hresolve : ∀ name methods, r.interfaceOf name = .ok methods → Capability.AllSound methods :=
    fun _ _ hmethods => h.keepsSound.interfaceOf hmethods
  refine ⟨fun text names t ht => ?_, fun text s hs => sound_of_readSignature hresolve hs⟩
  exact (readType_read ht).wellFormed hresolve

/-- A method whose parameters have a type variable of their own. -/
def generic : List CapabilityDecl := [⟨"call", some "[T](^(T) -> T, ?T item)", false⟩]

theorem parsed_well_formed_generic :
    ∃ r s, initial.registerInterface "_E" generic = .ok r ∧
      (readSignature r.interfaceOf "[A](?A a, A b, k: ::B.A | _E) \x7b (*A) -> bool \x7d -> (A?)").result = .ok s ∧
      s.WellFormed := by
  have hr : initial.registerInterface "_E" generic = .ok (initial.withInterface "_E" generic) := if_pos (by cbv)
  have hread : (readSignature (initial.withInterface "_E" generic).interfaceOf
      "[A](?A a, A b, k: ::B.A | _E) \x7b (*A) -> bool \x7d -> (A?)").result.isOk = true := by decide +kernel
  generalize initial.withInterface "_E" generic = r at hr hread
  cases hs : (readSignature r.interfaceOf "[A](?A a, A b, k: ::B.A | _E) \x7b (*A) -> bool \x7d -> (A?)").result with
  | error e =>
    rw [hs] at hread
    cases hread
  | ok s => exact ⟨r, s, hr, hs, (parsed_well_formed (.registerInterface .initial hr)).2 _ s hs⟩

end Registry

end Conformance
