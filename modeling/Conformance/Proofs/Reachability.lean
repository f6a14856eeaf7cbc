import Conformance.Proofs.Grammar

/-!
# Registries that can be reached

A registry starts out as `Registry.initial`, and changes by registrations and by keeping what was looked up.
`Reachable` are the registries that come about so.  What holds of all of them is proved by induction on how a
registry came about; that an alias never stands for a type with a type variable in it is the case in point
(`Reachable.expansion_closed`).
-/

namespace Conformance

variable {t : TypeExpr}

theorem Table.mem_of_find? {α : Type} {t : Table α} {key : String} {a : α} (h : t.find? key = some a) :
    (key, a) ∈ t := by
  obtain ⟨e, he, rfl⟩ := Option.map_eq_some_iff.1 h
  have hkey : e.1 = key := by simpa using List.find?_some he
  rw [← hkey]
  exact List.mem_of_find?_eq_some he

theorem TypeExpr.Read.mem_of_hasVar {ε : Type} {scope : Parser.Scope ε} {x : String} (ht : t.Read scope)
    (hx : t.HasVar x) : x ∈ scope.typeParams := by
  obtain ⟨_, _, _, hmem⟩ := ht _ hx
  exact hmem

namespace Registry

variable {r : Registry}

/-! ## Keeping what was looked up -/

/-- The registry without what it keeps of interfaces that were looked up. -/
def withoutNodes (r : Registry) : Registry := { r with interfaceNodes := [], serial := 0 }

/-- The registry without what it keeps of names and interfaces that were looked up. -/
def bare (r : Registry) : Registry := { r with resolved := [], interfaceNodes := [], serial := 0 }

theorem withoutNodes_keepInterface (r : Registry) (name : String) (methods : List (Capability TypeExpr)) :
    (r.keepInterface name methods).withoutNodes = r.withoutNodes := rfl

/-- What no step of a fold changes, the fold does not change. -/
theorem foldl_unchanged {α β γ : Type} (view : β → γ) {f : β → α → β} (hf : ∀ b a, view (f b a) = view b)
    (as : List α) (b : β) : view (as.foldl f b) = view b := by
  induction as generalizing b with
  | nil => rfl
  | cons a as ih => rw [List.foldl_cons, ih, hf]

theorem withoutNodes_rememberInterface (depth : Nat) (r : Registry) (name : String) :
    (rememberInterface depth r name).withoutNodes = r.withoutNodes := by
  induction depth generalizing r name with
  | zero => rfl
  | succ depth ih =>
    rw [rememberInterface]
    split
    · rfl
    · split
      · rfl
      · rename_i decls _
        -- every declaration may lead to further interfaces, which are remembered first
        dsimp only
        generalize hlook : List.foldl _ (r, true) decls = after
        have hafter : after.1.withoutNodes = r.withoutNodes := by
          subst hlook
          refine foldl_unchanged (fun acc : Registry × Bool => acc.1.withoutNodes) (fun acc d => ?_) decls (r, true)
          split
          · exact foldl_unchanged withoutNodes ih _ _
          · rfl
        split
        · rw [withoutNodes_keepInterface, hafter]
        · exact hafter

/-- Nothing but the nodes of interfaces changes when they are remembered. -/
theorem withoutNodes_rememberAll (r : Registry) (mentions : List String) :
    (r.rememberAll mentions).withoutNodes = r.withoutNodes :=
  foldl_unchanged withoutNodes (fun r name => withoutNodes_rememberInterface _ r name) mentions r

theorem bare_rememberAll (r : Registry) (mentions : List String) : (r.rememberAll mentions).bare = r.bare := by
  change (r.rememberAll mentions).withoutNodes.bare = r.withoutNodes.bare
  rw [withoutNodes_rememberAll]

theorem classOf_rememberAll (r : Registry) (mentions : List String) :
    (r.rememberAll mentions).classOf = r.classOf := by
  change (r.rememberAll mentions).withoutNodes.classOf = r.withoutNodes.classOf
  rw [withoutNodes_rememberAll]

theorem bare_resolveClass (r : Registry) (name : String) : (r.resolveClass name).2.1.bare = r.bare := by
  unfold resolveClass
  dsimp only
  split
  · rfl
  · split <;> rfl

/-- The class or module that is found under a key. -/
def found? (r : Registry) (key : String) : Option Target :=
  match (r.classes.find? key).filter (!·.isNull) with
  | some v => Target.ofValue? v
  | none => r.targets key

theorem searchable_bind_error {key : String} {e : Fault} {t : Target} :
    (do searchable key; Except.error e : Except Fault Target) ≠ .ok t := by
  unfold searchable
  split
  · rintro ⟨⟩
  · split <;> rintro ⟨⟩

theorem findClass_eq_ok_iff {name : String} {t : Target} :
    r.findClass name = .ok t ↔ r.found? (normalize name) = some t := by
  unfold findClass found?
  dsimp only
  cases (r.classes.find? (normalize name)).filter (!·.isNull) with
  | some v =>
    dsimp only
    cases Target.ofValue? v <;> simp
  | none =>
    dsimp only
    cases r.targets (normalize name) with
    | some t' => simp
    | none => simp [searchable_bind_error]

/-- Names stand for the same when one of them was looked up. -/
theorem classOf_resolveClass (r : Registry) (name : String) : (r.resolveClass name).2.1.classOf = r.classOf := by
  unfold resolveClass
  dsimp only
  split
  · rfl
  · rename_i t ht
    split
    · rfl
    · rename_i hnew
      funext other
      rw [classOf]
      by_cases hother : normalize other = normalize name
      · rw [Option.not_isSome_iff_eq_none] at hnew
        rw [classOf, hnew] at ht
        rw [hother, Table.find?_insert_self, classOf, hother, hnew]
        rw [findClass_eq_ok_iff, ← hother] at ht
        exact (findClass_eq_ok_iff.2 ht).symm
      · rw [Table.find?_insert_of_ne _ _ hother]
        rfl

theorem bare_resolveAll (r : Registry) (names : List String) : (r.resolveAll names).2.1.bare = r.bare := by
  induction names generalizing r with
  | nil => rfl
  | cons name names ih =>
    have hone := bare_resolveClass r name
    rw [resolveAll]
    split
    · rename_i heq
      rwa [heq] at hone
    · rename_i heq
      rw [heq] at hone
      exact (ih _).trans hone

theorem expansions_of_bare {r' : Registry} (h : r'.bare = r.bare) : r'.expansions = r.expansions := by
  change r'.bare.expansions = r.bare.expansions
  rw [h]

theorem classOf_resolveAll (r : Registry) (names : List String) : (r.resolveAll names).2.1.classOf = r.classOf := by
  induction names generalizing r with
  | nil => rfl
  | cons name names ih =>
    have hone := classOf_resolveClass r name
    rw [resolveAll]
    split
    · rename_i heq
      rwa [heq] at hone
    · rename_i heq
      rw [heq] at hone
      exact (ih _).trans hone

theorem isAlias_of_bare {r' : Registry} (h : r'.bare = r.bare) : r'.isAlias = r.isAlias := by
  change r'.bare.isAlias = r.bare.isAlias
  rw [h]

/-! ## Reading signatures -/

/-- All class names in the signature mean something. -/
def Settled (r : Registry) (s : Signature) : Prop :=
  ∀ name ∈ s.classNames r.isAlias, ∃ c, r.classOf name = .ok c

/-- The registry with one more signature kept. -/
def withSignature (r : Registry) (text : String) (kept : Kept Signature) : Registry :=
  { r with signatures := r.signatures.insert text kept }

theorem resolveAll_ok {names : List String} (h : (r.resolveAll names).1 = .ok ()) :
    ∀ name ∈ names, ∃ c, r.classOf name = .ok c := by
  induction names generalizing r with
  | nil => exact fun name hname => nomatch hname
  | cons name names ih =>
    have hclassOf := classOf_resolveClass r name
    rw [resolveAll] at h
    split at h
    · cases h
    · rename_i c after log heq
      rw [heq] at hclassOf
      intro x hx
      rcases List.mem_cons.1 hx with rfl | hx
      · refine ⟨c, ?_⟩
        unfold resolveClass at heq
        dsimp only at heq
        split at heq
        · cases heq
        · rename_i hc
          split at heq <;> cases heq <;> exact hc
      · rw [← hclassOf]
        exact ih h x hx

/-- What reading a signature comes to: it was kept before, or it does not get read, or it is read, all class names
in it mean something, and it is kept. -/
theorem signature_cases (r : Registry) (text : String) :
    (∃ kept, r.signatures.find? text = some kept ∧ r.signature text = (.ok kept, r, [])) ∨
    (∃ e, (r.signature text).1 = .error e ∧ (r.signature text).2.1.bare = r.bare) ∨
    ∃ kept, (r.signature text).1 = .ok kept ∧ (readSignature r.interfaceOf text).result = .ok kept.node ∧
      r.Settled kept.node ∧ (r.signature text).2.1.bare = r.bare.withSignature text kept := by
  unfold signature
  split
  · rename_i kept hkept
    exact .inl ⟨kept, hkept, rfl⟩
  · refine .inr ?_
    have hread := bare_rememberAll r (readSignature r.interfaceOf text).mentions
    dsimp only
    split
    · exact .inl ⟨_, rfl, hread⟩
    · rename_i s hs
      have hnames := bare_resolveAll (r.rememberAll (readSignature r.interfaceOf text).mentions)
        (s.classNames (r.rememberAll (readSignature r.interfaceOf text).mentions).isAlias)
      split <;> rename_i heq <;> rw [heq] at hnames
      · exact .inl ⟨_, rfl, hnames.trans hread⟩
      · rename_i after log
        have hbare : after.bare = r.bare := hnames.trans hread
        refine .inr ⟨_, rfl, hs, ?_, ?_⟩
        · have hsettled := resolveAll_ok (congrArg Prod.fst heq)
          rw [isAlias_of_bare hread, classOf_rememberAll] at hsettled
          exact hsettled
        · rw [← hbare]
          rfl

/-- Names stand for the same when a signature was read. -/
theorem classOf_signature (r : Registry) (text : String) : (r.signature text).2.1.classOf = r.classOf := by
  unfold signature
  split
  · rfl
  · have hread := classOf_rememberAll r (readSignature r.interfaceOf text).mentions
    dsimp only
    split
    · exact hread
    · rename_i s _
      have hnames := classOf_resolveAll (r.rememberAll (readSignature r.interfaceOf text).mentions)
        (s.classNames (r.rememberAll (readSignature r.interfaceOf text).mentions).isAlias)
      split <;> rename_i heq <;> rw [heq] at hnames <;> exact hnames.trans hread

theorem expansions_signature (r : Registry) (text : String) :
    (r.signature text).2.1.expansions = r.expansions := by
  rcases signature_cases r text with ⟨kept, -, heq⟩ | ⟨e, -, hbare⟩ | ⟨kept, -, -, -, hbare⟩
  · rw [heq]
  · exact expansions_of_bare hbare
  · change (r.signature text).2.1.bare.expansions = (r.bare.withSignature text kept).expansions
    rw [hbare]

/-! ## Reachable registries -/

/-- The registries that come about by registering and looking up. -/
inductive Reachable : Registry → Prop
  | initial : Reachable initial
  | registerClass {r : Registry} (h : Reachable r) (name : String) (v : Value) : Reachable (r.registerClass name v)
  | registerInterface {r r' : Registry} (h : Reachable r) {name : String} {methods : List CapabilityDecl}
      (hr : r.registerInterface name methods = .ok r') : Reachable r'
  | registerAlias {r : Registry} (h : Reachable r) (name text : String) : Reachable (r.registerAlias name text)
  | interface {r : Registry} (h : Reachable r) (name : String) : Reachable (r.interface name).2
  | parseType {r : Registry} (h : Reachable r) (text : String) (typeParams : List String) :
      Reachable (r.parseType text typeParams).2
  | expandAlias {r : Registry} (h : Reachable r) (name : String) : Reachable (r.expandAlias name).2
  | resolveClass {r : Registry} (h : Reachable r) (name : String) : Reachable (r.resolveClass name).2.1
  | signature {r : Registry} (h : Reachable r) (text : String) : Reachable (r.signature text).2.1

/-- No kept expansion has a type variable in it. -/
def Closed (r : Registry) : Prop :=
  ∀ key kept, r.expansions.find? key = some kept → ∀ x, ¬ kept.node.HasVar x

theorem Closed.of_expansions {r' : Registry} (h : r.Closed) (heq : r'.expansions = r.expansions) : r'.Closed := by
  intro key kept hkept
  exact h key kept (heq ▸ hkept)

theorem number_snd (r : Registry) (t : TypeExpr) : ∃ serial, (r.number t).2 = { r with serial } := by
  unfold number
  dsimp only
  split
  · split
    · exact ⟨r.serial, rfl⟩
    · exact ⟨r.serial + 1, rfl⟩
  · exact ⟨r.serial + 1, rfl⟩

theorem node_number (r : Registry) (t : TypeExpr) : (r.number t).1.node = t := by
  unfold number
  dsimp only
  split
  · split <;> rfl
  · rfl

/-- An alias is read where no type variable is in scope. -/
theorem not_hasVar_of_readType {resolve : Resolve} {text : String} (h : (readType resolve [] text).result = .ok t)
    (x : String) : ¬ t.HasVar x := by
  intro hx
  have hmem := (readType_read h).mem_of_hasVar hx
  cases hmem

/-- To expand an alias does nothing, or keeps the interfaces that its text mentions and, if the text can be read, what
was read. -/
theorem expandAlias_cases (r : Registry) (name : String) :
    (r.expandAlias name).2 = r ∨ ∃ text after,
      after = r.rememberAll (readType r.interfaceOf [] text).mentions ∧
      ((r.expandAlias name).2 = after ∨ ∃ kept serial, (readType r.interfaceOf [] text).result = .ok kept.node ∧
        r.expansionOf name = .ok kept.node ∧
        (r.expandAlias name).2 = { after with serial, expansions := after.expansions.insert (normalize name) kept }) := by
  unfold expandAlias expansionOf
  dsimp only
  cases r.expansions.find? (normalize name) with
  | some kept => exact .inl rfl
  | none =>
    dsimp only
    cases r.aliases.find? (normalize name) with
    | none => exact .inl rfl
    | some text =>
      refine .inr ⟨text, _, rfl, ?_⟩
      unfold parseType
      dsimp only
      cases (readType r.interfaceOf [] text).result with
      | error e => exact .inl rfl
      | ok t =>
        obtain ⟨serial, hserial⟩ := number_snd (r.rememberAll (readType r.interfaceOf [] text).mentions) t
        have hnode := node_number (r.rememberAll (readType r.interfaceOf [] text).mentions) t
        refine .inr ⟨_, serial, congrArg Except.ok hnode.symm, congrArg Except.ok hnode.symm, ?_⟩
        dsimp only
        rw [hserial]

theorem Closed.expandAlias (h : r.Closed) (name : String) : (r.expandAlias name).2.Closed := by
  obtain hsame | ⟨text, after, hafter, hread⟩ := r.expandAlias_cases name
  · rwa [hsame]
  · have hclosed : after.Closed := h.of_expansions (expansions_of_bare (hafter ▸ bare_rememberAll r _))
    obtain hsame | ⟨kept, serial, ht, -, hkept⟩ := hread
    · rwa [hsame]
    · rw [hkept]
      intro key kept' hkept'
      by_cases hkey : key = normalize name
      · subst hkey
        rw [Table.find?_insert_self] at hkept'
        cases hkept'
        exact not_hasVar_of_readType ht
      · rw [Table.find?_insert_of_ne _ _ hkey] at hkept'
        exact hclosed key kept' hkept'

theorem Closed.registerAlias (h : r.Closed) (name text : String) : (r.registerAlias name text).Closed := by
  intro key kept hkept
  change (r.expansions.erase (normalize name)).find? key = some kept at hkept
  by_cases hkey : key = normalize name
  · rw [hkey, Table.find?_erase_self] at hkept
    cases hkept
  · rw [Table.find?_erase_of_ne _ hkey] at hkept
    exact h key kept hkept

theorem Reachable.closed (h : Reachable r) : r.Closed := by
  induction h with
  | initial =>
    intro key kept hkept
    cases hkept
  | registerClass _ name v ih => exact ih.of_expansions rfl
  | registerInterface _ hr ih =>
    unfold Registry.registerInterface at hr
    split at hr
    · cases hr
      exact ih.of_expansions rfl
    · cases hr
  | registerAlias _ name text ih => exact ih.registerAlias name text
  | @interface r _ name ih =>
    refine ih.of_expansions ?_
    unfold Registry.interface
    dsimp only
    split <;> exact expansions_of_bare (bare_rememberAll r [name])
  | parseType _ text typeParams ih => exact ih.of_expansions (expansions_of_bare (bare_rememberAll _ _))
  | expandAlias _ name ih => exact ih.expandAlias name
  | resolveClass _ name ih => exact ih.of_expansions (expansions_of_bare (bare_resolveClass _ name))
  | signature _ text ih => exact ih.of_expansions (expansions_signature _ text)

/-- What an alias stands for has no type variable in it. -/
theorem Reachable.expansion_closed (h : Reachable r) {name : String} (ht : r.expansionOf name = .ok t) (x : String) :
    ¬ t.HasVar x := by
  unfold expansionOf at ht
  dsimp only at ht
  split at ht
  · rename_i kept hkept
    cases ht
    exact h.closed _ _ hkept x
  · split at ht
    · cases ht
    · exact not_hasVar_of_readType ht x

end Registry

end Conformance
