import Mathlib
import Conformance.Proofs.ClassNames
import Conformance.Proofs.Lookups

/-!
# What a registry keeps

A registry keeps what was looked up, and hands it out again.  `Registry.fresh` is the registry with the same
registrations that has looked nothing up yet, and a registry is `Current` if all that it keeps is what the fresh one
would find.  Then no lookup can tell the two apart (`Current.answer_eq`), and to look something up leaves the registry
current.

A registration forgets what was kept under its own name.  What else is kept can be made of the same name: an interface
node is part of the signatures, expansions and other nodes that mention it, and the class names in a signature are not
looked up again.  A registration of the first kind `Disturbs` the registry if it changes an interface that something
else that is kept leads to, and one of the second kind if it takes the meaning from a class name in a kept signature.
Those are the only ones that do: without them a registry stays current.
-/

namespace Conformance

namespace Registry

variable {r r' : Registry} {name text : String}

/-! ## What lookups give -/

/-- The registry with the same registrations that has looked nothing up yet. -/
def fresh (r : Registry) : Registry where
  classes := r.classes
  interfaces := r.interfaces
  aliases := r.aliases
  targets := r.targets
  constants := r.constants

/-- What a signature is read as, if all class names in it mean something. -/
def signatureOf (r : Registry) (text : String) : Except Fault Signature :=
  match r.signatures.find? text with
  | some kept => .ok kept.node
  | none => do
    let s ← (readSignature r.interfaceOf text).result
    forM (s.classNames r.isAlias) fun name => (r.classOf name).map fun _ => ()
    return s

theorem resolveClass_fst (r : Registry) (name : String) : (r.resolveClass name).1 = r.classOf name := by
  unfold resolveClass
  dsimp only
  split
  · rename_i heq
    exact heq.symm
  · rename_i heq
    split <;> exact heq.symm

theorem resolveAll_fst (r : Registry) (names : List String) :
    (r.resolveAll names).1 = forM names fun name => (r.classOf name).map fun _ => () := by
  induction names generalizing r with
  | nil => rfl
  | cons name names ih =>
    have hfst := r.resolveClass_fst name
    have hclassOf := r.classOf_resolveClass name
    rw [resolveAll, List.forM_cons]
    generalize r.resolveClass name = found at hfst hclassOf ⊢
    obtain ⟨e | t, after, log⟩ := found
    · rw [← hfst]
      rfl
    · dsimp only at hfst hclassOf ⊢
      rw [ih after, hclassOf, ← hfst]
      rfl

theorem signature_node (r : Registry) (text : String) : (r.signature text).1.map (·.node) = r.signatureOf text := by
  unfold signature signatureOf
  cases r.signatures.find? text with
  | some kept => rfl
  | none =>
    dsimp only
    cases (readSignature r.interfaceOf text).result with
    | error e => rfl
    | ok s =>
      have hread := bare_rememberAll r (readSignature r.interfaceOf text).mentions
      have hnames := resolveAll_fst (r.rememberAll (readSignature r.interfaceOf text).mentions) (s.classNames r.isAlias)
      rw [classOf_rememberAll] at hnames
      dsimp only
      rw [isAlias_of_bare hread]
      change _ = (do forM (s.classNames r.isAlias) fun name => (r.classOf name).map fun _ => ()
                     return s)
      rw [← hnames]
      generalize resolveAll _ _ = found
      obtain ⟨e | _, after, log⟩ := found
      · rfl
      · rfl

theorem interface_node (r : Registry) (name : String) : (r.interface name).1.map (·.node) = r.interfaceOf name := by
  unfold interface
  cases hfound : r.interfaceOf name with
  | error e => rfl
  | ok methods =>
    dsimp only
    cases hk : (r.rememberAll [name]).interfaceNodes.find? name with
    | none => rfl
    | some k =>
      have hnode := (r.keeps_rememberAll [name]).found name k hk
      rw [hfound] at hnode
      exact hnode.symm

theorem expandAlias_node (r : Registry) (name : String) : (r.expandAlias name).1.map (·.node) = r.expansionOf name := by
  unfold expandAlias expansionOf
  dsimp only
  cases r.expansions.find? (normalize name) with
  | some k => rfl
  | none =>
    dsimp only
    cases r.aliases.find? (normalize name) with
    | none => rfl
    | some text =>
      unfold parseType
      dsimp only
      cases (readType r.interfaceOf [] text).result with
      | error e => rfl
      | ok t => exact congrArg Except.ok (node_number _ t)

/-- The registry with an interface declared. -/
def withInterface (r : Registry) (name : String) (methods : List CapabilityDecl) : Registry :=
  { r with interfaces := r.interfaces.insert name methods, interfaceNodes := r.interfaceNodes.erase name }

/-- Whether an interface may be declared depends on its name. -/
theorem registerInterface_cases (name : String) (methods : List CapabilityDecl) :
    (∀ r : Registry, r.registerInterface name methods = .ok (r.withInterface name methods)) ∨
      ∀ r : Registry, r.registerInterface name methods = .error (.interfaceName name) := by
  by_cases hname : (((name.splitOn "::").getLast?).getD "").startsWith "_" = true
  · exact .inl fun r => if_pos hname
  · exact .inr fun r => if_neg hname

/-- An operation on a registry. -/
inductive Op where
  | registerClass (name : String) (v : Value)
  | registerInterface (name : String) (methods : List CapabilityDecl)
  | registerAlias (name text : String)
  | signature (text : String)
  | interface (name : String)
  | expandAlias (name : String)
  | resolveClass (name : String)
  | parseType (text : String) (typeParams : List String)

/-- What an operation answers. -/
inductive Answer where
  | registered
  | failed (e : Fault)
  | signature (s : Signature)
  | interface (methods : List (Capability TypeExpr))
  | type (t : TypeExpr)
  | target (t : Target)

/-- The answer to a lookup. -/
def Answer.of {α : Type} (wrap : α → Answer) : Except Fault α → Answer
  | .ok a => wrap a
  | .error e => .failed e

/-- The answer of an operation, and the registry after it. -/
def Op.apply : Op → Registry → Answer × Registry
  | registerClass name v, r => (.registered, r.registerClass name v)
  | registerInterface name methods, r =>
    match r.registerInterface name methods with
    | .ok after => (.registered, after)
    | .error e => (.failed e, r)
  | registerAlias name text, r => (.registered, r.registerAlias name text)
  | signature text, r => (.of .signature ((r.signature text).1.map (·.node)), (r.signature text).2.1)
  | interface name, r => (.of .interface ((r.interface name).1.map (·.node)), (r.interface name).2)
  | expandAlias name, r => (.of .type ((r.expandAlias name).1.map (·.node)), (r.expandAlias name).2)
  | resolveClass name, r => (.of .target (r.resolveClass name).1, (r.resolveClass name).2.1)
  | parseType text typeParams, r => (.of .type (r.parseType text typeParams).1, (r.parseType text typeParams).2)

/-- The registry after operations. -/
def after (r : Registry) (ops : List Op) : Registry := ops.foldl (fun r op => (op.apply r).2) r

/-! ## Current registries -/

/-- What is kept is what would be found. -/
structure Current (r : Registry) : Prop where
  classes : ∀ name t, r.resolved.find? (normalize name) = some t → r.fresh.classOf name = .ok t
  interfaces : ∀ name k, r.interfaceNodes.find? name = some k → r.fresh.interfaceOf name = .ok k.node
  aliases : ∀ name k, r.expansions.find? (normalize name) = some k → r.fresh.expansionOf name = .ok k.node
  signatures : ∀ text k, r.signatures.find? text = some k → r.fresh.signatureOf text = .ok k.node

theorem current_initial : initial.Current where
  classes _ _ h := by cases h
  interfaces _ _ h := by cases h
  aliases _ _ h := by cases h
  signatures _ _ h := by cases h

namespace Current

theorem classOf (h : r.Current) : r.classOf = r.fresh.classOf := by
  funext name
  rw [Registry.classOf]
  split
  · rename_i t ht
    exact (h.classes name t ht).symm
  · rfl

theorem interfaceOf (h : r.Current) : r.interfaceOf = r.fresh.interfaceOf :=
  interfaceOf_congr rfl h.interfaces fun _ _ hk => by cases hk

theorem expansionOf (h : r.Current) : r.expansionOf = r.fresh.expansionOf := by
  funext name
  rw [Registry.expansionOf]
  split
  · rename_i k hk
    exact (h.aliases name k hk).symm
  · rw [h.interfaceOf]
    rfl

theorem signatureOf (h : r.Current) : r.signatureOf = r.fresh.signatureOf := by
  funext text
  rw [Registry.signatureOf]
  split
  · rename_i k hk
    exact (h.signatures text k hk).symm
  · rw [h.interfaceOf, h.classOf]
    rfl

/-- No operation can tell a current registry from the fresh one. -/
theorem answer_eq (h : r.Current) (op : Op) : (op.apply r).1 = (op.apply r.fresh).1 := by
  cases op with
  | registerClass name v => rfl
  | registerInterface name methods =>
    rcases registerInterface_cases name methods with hok | herror
    · simp only [Op.apply, hok]
    · simp only [Op.apply, herror]
  | registerAlias name text => rfl
  | signature text => simp only [Op.apply, signature_node, h.signatureOf]
  | interface name => simp only [Op.apply, interface_node, h.interfaceOf]
  | expandAlias name => simp only [Op.apply, expandAlias_node, h.expansionOf]
  | resolveClass name => simp only [Op.apply, resolveClass_fst, h.classOf]
  | parseType text typeParams => simp only [Op.apply, Registry.parseType, h.interfaceOf]

end Current

theorem Answer.of_inj {α : Type} {wrap : α → Answer} (hwrap : ∀ a b, wrap a = wrap b → a = b)
    (hfailed : ∀ a e, wrap a ≠ .failed e) {x y : Except Fault α} (h : Answer.of wrap x = Answer.of wrap y) : x = y := by
  cases x with
  | error e =>
    cases y with
    | error e' => exact congrArg _ (Answer.failed.inj h)
    | ok b => exact absurd h.symm (hfailed b e)
  | ok a =>
    cases y with
    | error e' => exact absurd h (hfailed a e')
    | ok b => exact congrArg _ (hwrap a b h)

/-- A registry that cannot be told from the fresh one is current. -/
theorem current_of_answer_eq (h : ∀ op : Op, (op.apply r).1 = (op.apply r.fresh).1) : r.Current where
  classes name t ht := by
    have hsame := h (.resolveClass name)
    simp only [Op.apply, resolveClass_fst] at hsame
    rw [← Answer.of_inj (fun _ _ => Answer.target.inj) (by rintro _ _ ⟨⟩) hsame, classOf, ht]
  interfaces name k hk := by
    have hsame := h (.interface name)
    simp only [Op.apply, interface_node] at hsame
    rw [← Answer.of_inj (fun _ _ => Answer.interface.inj) (by rintro _ _ ⟨⟩) hsame, interfaceOf_of_kept hk]
  aliases name k hk := by
    have hsame := h (.expandAlias name)
    simp only [Op.apply, expandAlias_node] at hsame
    rw [← Answer.of_inj (fun _ _ => Answer.type.inj) (by rintro _ _ ⟨⟩) hsame, expansionOf, hk]
  signatures text k hk := by
    have hsame := h (.signature text)
    simp only [Op.apply, signature_node] at hsame
    rw [← Answer.of_inj (fun _ _ => Answer.signature.inj) (by rintro _ _ ⟨⟩) hsame, signatureOf, hk]

/-! ## Looking up -/

theorem fresh_of_bare (h : r'.bare = r.bare) : r'.fresh = r.fresh := by
  change r'.bare.fresh = r.bare.fresh
  rw [h]

namespace Current

section

variable (h : r.Current)
include h

/-- A registry that keeps more is current if all it keeps is what would be found. -/
theorem of_fresh (hfresh : r'.fresh = r.fresh)
    (hclasses : ∀ name t, r'.resolved.find? (normalize name) = some t →
      r.resolved.find? (normalize name) = some t ∨ r.fresh.classOf name = .ok t)
    (hinterfaces : ∀ name k, r'.interfaceNodes.find? name = some k →
      r.interfaceNodes.find? name = some k ∨ r.fresh.interfaceOf name = .ok k.node)
    (haliases : ∀ name k, r'.expansions.find? (normalize name) = some k →
      r.expansions.find? (normalize name) = some k ∨ r.fresh.expansionOf name = .ok k.node)
    (hsignatures : ∀ text k, r'.signatures.find? text = some k →
      r.signatures.find? text = some k ∨ r.fresh.signatureOf text = .ok k.node) : r'.Current where
  classes name t ht := by
    rw [hfresh]
    exact (hclasses name t ht).elim (h.classes name t) id
  interfaces name k hk := by
    rw [hfresh]
    exact (hinterfaces name k hk).elim (h.interfaces name k) id
  aliases name k hk := by
    rw [hfresh]
    exact (haliases name k hk).elim (h.aliases name k) id
  signatures text k hk := by
    rw [hfresh]
    exact (hsignatures text k hk).elim (h.signatures text k) id

theorem rememberAll (mentions : List String) : (r.rememberAll mentions).Current := by
  have hsame := withoutNodes_rememberAll r mentions
  have hresolved : (r.rememberAll mentions).resolved = r.resolved := congrArg (·.resolved) hsame
  have hexpansions : (r.rememberAll mentions).expansions = r.expansions := congrArg (·.expansions) hsame
  have hsignatures : (r.rememberAll mentions).signatures = r.signatures := congrArg (·.signatures) hsame
  refine h.of_fresh (fresh_of_bare (bare_rememberAll r mentions)) ?_ ?_ ?_ ?_
  · rw [hresolved]
    exact fun _ _ => .inl
  · intro name k hk
    rw [← h.interfaceOf]
    exact .inr ((r.keeps_rememberAll mentions).found name k hk)
  · rw [hexpansions]
    exact fun _ _ => .inl
  · rw [hsignatures]
    exact fun _ _ => .inl

theorem interface (name : String) : (r.interface name).2.Current := by
  unfold Registry.interface
  dsimp only
  split
  · exact h.rememberAll [name]
  · exact h.rememberAll [name]

theorem parseType (text : String) (typeParams : List String) :
    (r.parseType text typeParams).2.Current :=
  h.rememberAll _

theorem resolveClass (name : String) : (r.resolveClass name).2.1.Current := by
  unfold Registry.resolveClass
  dsimp only
  split
  · exact h
  · rename_i t ht
    split
    · exact h
    · refine h.of_fresh rfl (fun other t' ht' => ?_) (fun _ _ => .inl) (fun _ _ => .inl) (fun _ _ => .inl)
      by_cases hother : normalize other = normalize name
      · rw [hother, Table.find?_insert_self] at ht'
        cases ht'
        rw [h.classOf] at ht
        change r.fresh.findClass name = .ok t at ht
        rw [findClass_eq_ok_iff, ← hother] at ht
        exact .inr (findClass_eq_ok_iff.2 ht)
      · rw [Table.find?_insert_of_ne _ _ hother] at ht'
        exact .inl ht'

theorem resolveAll (names : List String) : (r.resolveAll names).2.1.Current := by
  induction names generalizing r with
  | nil => exact h
  | cons name names ih =>
    have hone := h.resolveClass name
    rw [Registry.resolveAll]
    generalize r.resolveClass name = found at hone ⊢
    obtain ⟨e | t, after, log⟩ := found
    · exact hone
    · exact ih hone

theorem expandAlias (name : String) : (r.expandAlias name).2.Current := by
  obtain hsame | ⟨text, after, hafter, hread⟩ := r.expandAlias_cases name
  · rwa [hsame]
  · have hcurrent : after.Current := hafter ▸ h.rememberAll _
    have hfresh : after.fresh = r.fresh := fresh_of_bare (hafter ▸ bare_rememberAll r _)
    obtain hsame | ⟨kept, serial, -, hmeans, hkept⟩ := hread
    · rwa [hsame]
    · rw [hkept]
      refine hcurrent.of_fresh rfl (fun _ _ => .inl) (fun _ _ => .inl) (fun other k hk => ?_) (fun _ _ => .inl)
      by_cases hother : normalize other = normalize name
      · rw [hother, Table.find?_insert_self] at hk
        cases hk
        rw [h.expansionOf, Registry.expansionOf, ← hother] at hmeans
        rw [hfresh]
        exact .inr hmeans
      · rw [Table.find?_insert_of_ne _ _ hother] at hk
        exact .inl hk

theorem signature (text : String) : (r.signature text).2.1.Current := by
  have hnode := r.signature_node text
  rw [h.signatureOf] at hnode
  unfold Registry.signature at hnode ⊢
  split
  · exact h
  · rename_i hnew
    rw [hnew] at hnode
    dsimp only at hnode ⊢
    have hread := h.rememberAll (readSignature r.interfaceOf text).mentions
    have hfresh := fresh_of_bare (bare_rememberAll r (readSignature r.interfaceOf text).mentions)
    generalize r.rememberAll (readSignature r.interfaceOf text).mentions = after at hnode hread hfresh ⊢
    generalize (readSignature r.interfaceOf text).result = result at hnode ⊢
    obtain e | s := result
    · exact hread
    · dsimp only at hnode ⊢
      have hresolved := hread.resolveAll (s.classNames after.isAlias)
      have hfresh' := fresh_of_bare (bare_resolveAll after (s.classNames after.isAlias))
      generalize after.resolveAll (s.classNames after.isAlias) = found at hnode hresolved hfresh' ⊢
      obtain ⟨e | _, last, log⟩ := found
      · exact hresolved
      · refine hresolved.of_fresh rfl (fun _ _ => .inl) (fun _ _ => .inl) (fun _ _ => .inl) (fun other k hk => ?_)
        by_cases hother : other = text
        · subst hother
          rw [Table.find?_insert_self] at hk
          cases hk
          rw [hfresh', hfresh]
          exact .inr hnode.symm
        · rw [Table.find?_insert_of_ne _ _ hother] at hk
          exact .inl hk

end

end Current

/-! ## Registering -/

/-- Looking the first interface up leads to the second. -/
def LeadsTo (r : Registry) : String → String → Prop :=
  Relation.ReflTransGen fun name other =>
    ∃ decls, r.interfaces.find? name = some decls ∧ other ∈ mentioned r.fresh.interfaceOf decls

/-- Something that is kept leads to the interface, other than its own node. -/
inductive Rests (r : Registry) (name : String) : Prop
  | node {other : String} {k : Kept (List (Capability TypeExpr))} (h : r.interfaceNodes.find? other = some k)
      (hne : other ≠ name) (hleads : r.LeadsTo other name)
  | expansion {aliased : String} {k : Kept TypeExpr} {text other : String}
      (h : r.expansions.find? (normalize aliased) = some k) (htext : r.aliases.find? (normalize aliased) = some text)
      (hmentioned : other ∈ (readType r.fresh.interfaceOf [] text).mentions) (hleads : r.LeadsTo other name)
  | signature {text other : String} {k : Kept Signature} (h : r.signatures.find? text = some k)
      (hmentioned : other ∈ (readSignature r.fresh.interfaceOf text).mentions) (hleads : r.LeadsTo other name)

/-- A registration changes an interface that something kept leads to, or takes the meaning from a class name in a kept
signature. -/
def Disturbs (r : Registry) : Op → Prop
  | .registerClass name v => ∃ text k other, r.signatures.find? text = some k ∧ other ∈ k.node.classNames r.isAlias ∧
      normalize other = normalize name ∧ (r.registerClass name v).found? (normalize name) = none
  | .registerInterface name methods => r.interfaces.find? name ≠ some methods ∧ r.Rests name
  | _ => False

theorem except_ok_bind {α β : Type} (a : α) (f : α → Except Fault β) : (Except.ok a >>= f) = f a := rfl

theorem forM_classOf_eq_ok_iff {names : List String} :
    (forM names fun name => (r.classOf name).map fun _ => () : Except Fault Unit) = .ok () ↔
      ∀ name ∈ names, ∃ t, r.classOf name = .ok t := by
  induction names with
  | nil => simp [pure, Except.pure]
  | cons name names ih =>
    rw [List.forM_cons, List.forall_mem_cons, ← ih]
    cases r.classOf name with
    | error e => simp [Except.map, bind, Except.bind]
    | ok t => simp [Except.map, bind, Except.bind]

theorem classOf_fresh_eq_ok_iff {t : Target} : r.fresh.classOf name = .ok t ↔ r.found? (normalize name) = some t :=
  findClass_eq_ok_iff

/-- A fresh registry reads a signature if it can be read and all class names in it mean something. -/
theorem signatureOf_fresh_eq_ok_iff {s : Signature} : r.fresh.signatureOf text = .ok s ↔
    (readSignature r.fresh.interfaceOf text).result = .ok s ∧
      ∀ name ∈ s.classNames r.isAlias, ∃ t, r.found? (normalize name) = some t := by
  simp only [← classOf_fresh_eq_ok_iff]
  have hread : r.fresh.signatureOf text = (do
      let s ← (readSignature r.fresh.interfaceOf text).result
      forM (s.classNames r.isAlias) fun name => (r.fresh.classOf name).map fun _ => ()
      return s) := rfl
  rw [hread]
  cases (readSignature r.fresh.interfaceOf text).result with
  | error e => simp [bind, Except.bind]
  | ok s' =>
    rw [Except.ok.injEq]
    constructor
    · intro h
      cases hnames : (forM (s'.classNames r.isAlias) fun name => (r.fresh.classOf name).map fun _ => () :
          Except Fault Unit) with
      | error e =>
        rw [except_ok_bind, hnames] at h
        cases h
      | ok _ =>
        rw [except_ok_bind, hnames] at h
        cases h
        exact ⟨rfl, forM_classOf_eq_ok_iff.1 hnames⟩
    · rintro ⟨rfl, hnames⟩
      rw [except_ok_bind, forM_classOf_eq_ok_iff.2 hnames]
      rfl

theorem expansionOf_fresh_eq_ok_iff {t : TypeExpr} : r.fresh.expansionOf name = .ok t ↔
    ∃ text, r.aliases.find? (normalize name) = some text ∧ (readType r.fresh.interfaceOf [] text).result = .ok t := by
  have hkept : r.fresh.expansions.find? (normalize name) = none := rfl
  have htext : r.fresh.aliases.find? (normalize name) = r.aliases.find? (normalize name) := rfl
  simp only [expansionOf, hkept, htext]
  cases r.aliases.find? (normalize name) with
  | none => simp
  | some text => simp

theorem interfaceOf_fresh_congr (h : r'.interfaces.find? = r.interfaces.find?) :
    r'.fresh.interfaceOf = r.fresh.interfaceOf :=
  interfaceOf_congr h (fun _ _ hk => by cases hk) fun _ _ hk => by cases hk

theorem interfaceOf_registerClass (r : Registry) (name : String) (v : Value) :
    (r.registerClass name v).fresh.interfaceOf = r.fresh.interfaceOf :=
  interfaceOf_fresh_congr rfl

theorem interfaceOf_registerAlias (r : Registry) (name text : String) :
    (r.registerAlias name text).fresh.interfaceOf = r.fresh.interfaceOf :=
  interfaceOf_fresh_congr rfl

theorem found?_registerClass_of_ne {v : Value} {key : String} (h : key ≠ normalize name) :
    (r.registerClass name v).found? key = r.found? key := by
  unfold found? Registry.registerClass
  dsimp only
  rw [Table.find?_insert_of_ne _ _ h]

/-- To insert what is there changes nothing. -/
theorem find?_insert_of_find? {α : Type} {t : Table α} {key : String} {a : α} (h : t.find? key = some a) :
    (t.insert key a).find? = t.find? := by
  funext other
  by_cases hother : other = key
  · rw [hother, Table.find?_insert_self, h]
  · rw [Table.find?_insert_of_ne _ _ hother]

/-- What does not lead to an interface is found as before when that is declared in another way. -/
theorem interfaceOf_withInterface {methods : List CapabilityDecl} {other : String} {ms : List (Capability TypeExpr)}
    (hleads : ¬ r.LeadsTo other name) (h : r.fresh.interfaceOf other = .ok ms) :
    (r.withInterface name methods).fresh.interfaceOf other = .ok ms := by
  rw [interfaceOf] at h
  generalize r.fresh.interfaceDepth = depth at h
  induction depth generalizing other ms with
  | zero => cases h
  | succ depth ih =>
    have hne : other ≠ name := by
      rintro rfl
      exact hleads .refl
    have hinserted : (r.withInterface name methods).fresh.interfaces.find? other = r.interfaces.find? other :=
      Table.find?_insert_of_ne _ _ hne
    have hfresh : r.fresh.interfaces.find? other = r.interfaces.find? other := rfl
    rw [interfaceOf_eq rfl, hinserted]
    rw [interfaceAt, hfresh] at h
    cases hdecls : r.interfaces.find? other with
    | none =>
      rw [hdecls] at h
      cases h
    | some decls =>
      rw [hdecls] at h
      dsimp only at h ⊢
      rw [← h]
      refine mapM_readCapability_sim (fun n hn ms' hms' => ih (fun hon => hleads ?_) hms') h
      rw [← (r.fresh.deepens_interfaceOf depth).mentioned_eq h] at hn
      exact .head ⟨decls, hdecls, hn⟩ hon

namespace Current

theorem registerClass (h : r.Current) {v : Value} (hquiet : ¬ r.Disturbs (.registerClass name v)) :
    (r.registerClass name v).Current where
  classes other t ht := by
    change (r.resolved.erase (normalize name)).find? (normalize other) = some t at ht
    by_cases hother : normalize other = normalize name
    · rw [hother, Table.find?_erase_self] at ht
      cases ht
    · rw [Table.find?_erase_of_ne _ hother] at ht
      have hfound := h.classes other t ht
      rw [classOf_fresh_eq_ok_iff] at hfound ⊢
      rw [found?_registerClass_of_ne hother]
      exact hfound
  interfaces other k hk := by
    rw [interfaceOf_registerClass]
    exact h.interfaces other k hk
  aliases other k hk := by
    have hexpansion := h.aliases other k hk
    rw [expansionOf_fresh_eq_ok_iff] at hexpansion ⊢
    rw [interfaceOf_registerClass]
    exact hexpansion
  signatures text k hk := by
    have hsignature := h.signatures text k hk
    rw [signatureOf_fresh_eq_ok_iff] at hsignature ⊢
    rw [interfaceOf_registerClass]
    refine ⟨hsignature.1, fun other hother => ?_⟩
    by_cases hsame : normalize other = normalize name
    · rw [← Option.isSome_iff_exists, ← Option.ne_none_iff_isSome, hsame]
      exact fun hnone => hquiet ⟨text, k, other, hk, hother, hsame, hnone⟩
    · rw [found?_registerClass_of_ne hsame]
      exact hsignature.2 other hother

theorem registerAlias (h : r.Current) (name text : String) : (r.registerAlias name text).Current where
  classes := h.classes
  interfaces other k hk := by
    rw [interfaceOf_registerAlias]
    exact h.interfaces other k hk
  aliases other k hk := by
    change (r.expansions.erase (normalize name)).find? (normalize other) = some k at hk
    by_cases hother : normalize other = normalize name
    · rw [hother, Table.find?_erase_self] at hk
      cases hk
    · rw [Table.find?_erase_of_ne _ hother] at hk
      have hexpansion := h.aliases other k hk
      rw [expansionOf_fresh_eq_ok_iff] at hexpansion ⊢
      rw [interfaceOf_registerAlias]
      change ∃ text', (r.aliases.insert (normalize name) text).find? (normalize other) = some text' ∧ _
      rw [Table.find?_insert_of_ne _ _ hother]
      exact hexpansion
  signatures text' k hk := by
    have hsignature := h.signatures text' k hk
    rw [signatureOf_fresh_eq_ok_iff] at hsignature ⊢
    rw [interfaceOf_registerAlias]
    refine ⟨hsignature.1, fun other hother => hsignature.2 other (k.node.classNames_subset (fun n hn => ?_) hother)⟩
    change ((r.aliases.insert (normalize name) text).find? (normalize n)).isSome = true
    by_cases hsame : normalize n = normalize name
    · rw [hsame, Table.find?_insert_self]
      rfl
    · rw [Table.find?_insert_of_ne _ _ hsame]
      exact hn

theorem withInterface (h : r.Current) {methods : List CapabilityDecl}
    (hquiet : ¬ r.Disturbs (.registerInterface name methods)) : (r.withInterface name methods).Current := by
  -- whatever is kept leads to the interface only if that is declared as it was
  have hkeep (other : String) (ms : List (Capability TypeExpr)) (hrests : r.LeadsTo other name → r.Rests name)
      (hms : r.fresh.interfaceOf other = .ok ms) : (r.withInterface name methods).fresh.interfaceOf other = .ok ms := by
    by_cases hleads : r.LeadsTo other name
    · have hdeclared : r.interfaces.find? name = some methods := by
        by_contra hchanged
        exact hquiet ⟨hchanged, hrests hleads⟩
      rw [interfaceOf_fresh_congr (find?_insert_of_find? hdeclared)]
      exact hms
    · exact interfaceOf_withInterface hleads hms
  refine ⟨h.classes, fun other k hk => ?_, fun other k hk => ?_, fun text k hk => ?_⟩
  · change (r.interfaceNodes.erase name).find? other = some k at hk
    by_cases hother : other = name
    · rw [hother, Table.find?_erase_self] at hk
      cases hk
    · rw [Table.find?_erase_of_ne _ hother] at hk
      exact hkeep other k.node (.node hk hother) (h.interfaces other k hk)
  · obtain ⟨text, htext, hread⟩ := expansionOf_fresh_eq_ok_iff.1 (h.aliases other k hk)
    refine expansionOf_fresh_eq_ok_iff.2 ⟨text, htext, ?_⟩
    rw [readType_sim (fun n hn ms hms => hkeep n ms (.expansion hk htext hn) hms) hread, hread]
  · obtain ⟨hread, hnames⟩ := signatureOf_fresh_eq_ok_iff.1 (h.signatures text k hk)
    refine signatureOf_fresh_eq_ok_iff.2 ⟨?_, hnames⟩
    rw [readSignature_sim (fun n hn ms hms => hkeep n ms (.signature hk hn) hms) hread, hread]

theorem apply (h : r.Current) {op : Op} (hquiet : ¬ r.Disturbs op) : (op.apply r).2.Current := by
  cases op with
  | registerClass name v => exact h.registerClass hquiet
  | registerInterface name methods =>
    rcases registerInterface_cases name methods with hok | herror
    · simp only [Op.apply, hok]
      exact h.withInterface hquiet
    · simp only [Op.apply, herror]
      exact h
  | registerAlias name text => exact h.registerAlias name text
  | signature text => exact h.signature text
  | interface name => exact h.interface name
  | expandAlias name => exact h.expandAlias name
  | resolveClass name => exact h.resolveClass name
  | parseType text typeParams => exact h.parseType text typeParams

end Current

/-! ## Histories -/

/-- No operation disturbs what is kept when it comes. -/
def Undisturbed (ops : List Op) : Prop :=
  ∀ before op rest, ops = before ++ op :: rest → ¬ (initial.after before).Disturbs op

theorem Undisturbed.current {ops : List Op} (h : Undisturbed ops) : (initial.after ops).Current := by
  induction ops using List.reverseRecOn with
  | nil => exact current_initial
  | append_singleton ops op ih =>
    have hbefore : Undisturbed ops := by
      intro before op' rest heq
      exact h before op' (rest ++ [op]) (by rw [heq]; simp)
    have hquiet := h ops op [] rfl
    rw [after, List.foldl_append]
    exact (ih hbefore).apply hquiet

/-- No lookup tells a registry from the fresh one if and only if all that is kept is what would be found; and that is so
unless an earlier registration changed what something was made of that was kept then. -/
theorem lookups_fresh (ops : List Op) :
    (Undisturbed ops → ∀ op : Op, (op.apply (initial.after ops)).1 = (op.apply (initial.after ops).fresh).1) ∧
      ((∀ op : Op, (op.apply (initial.after ops)).1 = (op.apply (initial.after ops).fresh).1) ↔
        (initial.after ops).Current) :=
  ⟨fun h => h.current.answer_eq, current_of_answer_eq, fun h => h.answer_eq⟩

/-- An interface is looked up between two declarations of it. -/
def redeclared : List Op :=
  [.registerInterface "_A" [method "x"], .interface "_A", .registerInterface "_A" [method "y"]]

/-- An interface is part of a signature that is looked up between two declarations of it. -/
def embedded : List Op :=
  [.registerInterface "_A" [method "x"], .signature "() -> _A", .registerInterface "_A" [method "y"]]

theorem undisturbed_redeclared : Undisturbed redeclared := by
  rintro (_ | ⟨a, _ | ⟨b, _ | ⟨c, before⟩⟩⟩) op rest heq
  · cases heq
    rintro ⟨-, ⟨h, -, -⟩ | ⟨h, -, -, -⟩ | ⟨h, -, -⟩⟩ <;> cases h
  · cases heq
    exact id
  · cases heq
    generalize hbefore : initial.after [.registerInterface "_A" [method "x"], .interface "_A"] = r
    have hnodes : r.interfaceNodes = Table.insert [] "_A" ⟨0, [⟨"x", none, false⟩]⟩ := by
      subst hbefore
      cbv
    have hexpansions : r.expansions = [] := by
      subst hbefore
      cbv
    have hsignatures : r.signatures = [] := by
      subst hbefore
      cbv
    rintro ⟨-, ⟨h, hne, -⟩ | ⟨h, -, -, -⟩ | ⟨h, -, -⟩⟩
    · rw [hnodes, Table.find?_insert_of_ne _ _ hne] at h
      cases h
    · rw [hexpansions] at h
      cases h
    · rw [hsignatures] at h
      cases h
  · simp [redeclared] at heq

theorem lookups_fresh_redeclared :
    ((Op.interface "_A").apply (initial.after redeclared)).1 = .interface [⟨"y", none, false⟩] ∧
      ((Op.interface "_A").apply (initial.after redeclared)).1 =
        ((Op.interface "_A").apply (initial.after redeclared).fresh).1 ∧
      ¬ (initial.after embedded).Current := by
  refine ⟨by cbv, (lookups_fresh redeclared).1 undisturbed_redeclared (.interface "_A"), fun hcurrent => ?_⟩
  have hsame := (lookups_fresh embedded).2.2 hcurrent (.signature "() -> _A")
  have hkept : ((Op.signature "() -> _A").apply (initial.after embedded)).1 =
    .signature { params := {}, result := .interface "_A" [⟨"x", none, false⟩], text := "() -> _A" } := by cbv
  have hfresh : ((Op.signature "() -> _A").apply (initial.after embedded).fresh).1 =
    .signature { params := {}, result := .interface "_A" [⟨"y", none, false⟩], text := "() -> _A" } := by cbv
  rw [hkept, hfresh] at hsame
  simp at hsame

end Registry

end Conformance
