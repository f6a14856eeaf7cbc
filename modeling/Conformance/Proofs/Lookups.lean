import Conformance.Proofs.Congruence
import Conformance.Proofs.Reachability

/-!
# Lookups of interfaces

What a text is read as depends on the lookups that are made while it is read, and on no others.  Two lookups can be
compared by what they give when they succeed, for the names that are looked up (`Sim`), or by what they give unless
that is one fault (`Same`).  The second is how lookups within a depth compare with deeper ones: they give the same
unless they end too deep (`Deepens`).

No chain of interfaces that lead to others is longer than there are interfaces, so from some depth on all lookups are
the same (`interfaceAt_of_le`), and what an interface asks for is what its declaration gives when all others are looked
up in the same way (`interfaceOf_eq`).  It follows that it does not matter which nodes are kept, as long as they are
those that would be found (`interfaceOf_congr`).
-/

namespace Conformance

variable {known : String → Prop}

namespace Parser

variable {ε α β : Type}

/-! ## Readers with different lookups -/

/-- The second reader gives what the first one does up to the view, when that succeeds and looks up names of one kind
only. -/
def Sim (known : String → Prop) (α : Type) (V : α → α → Prop) (p p' : Parser ε α) : Prop :=
  ∀ c a c₁, p.run c = .ok (a, c₁) →
    c.mentions ⊆ c₁.mentions ∧ ((∀ name ∈ c₁.mentions, known name) → ∃ a', p'.run c = .ok (a', c₁) ∧ V a a')

theorem Sim.bind {V : α → α → Prop} [Std.Refl V] {W : β → β → Prop} {p p' : Parser ε α} {f f' : α → Parser ε β}
    (hp : Sim known α V p p') (hf : ∀ a a', V a a' → Sim known β W (f a) (f' a')) :
    Sim known β W (p >>= f) (p' >>= f') := by
  intro c b c₂ h
  cases hrun : p.run c with
  | error e => cases (run_bind_of_error hrun).symm.trans h
  | ok x =>
    obtain ⟨a, c₁⟩ := x
    rw [run_bind_of_ok hrun] at h
    obtain ⟨hfirst, hsame⟩ := hp c a c₁ hrun
    have hsecond := (hf a a (refl a) c₁ b c₂ h).1
    refine ⟨List.Subset.trans hfirst hsecond, fun hknown => ?_⟩
    obtain ⟨a', hrun', hview⟩ := hsame fun name hname => hknown name (hsecond hname)
    rw [run_bind_of_ok hrun']
    exact (hf a a' hview c₁ b c₂ h).2 hknown

theorem congruence_sim (known : String → Prop) : Congruence none (Sim (ε := ε) known) := by
  refine .of_steps (fun {_ _ _ a'} hview c b c₁ h => ?_) .bind fun p hp c a c₁ h => ?_
  · cases h
    exact ⟨List.Subset.refl _, fun _ => ⟨a', rfl, hview⟩⟩
  · rw [hp c a c₁ h]
    exact ⟨List.Subset.refl _, fun _ => ⟨a, h, rfl⟩⟩

/-- The second reader does what the first one does up to the view, unless that stops for the reason. -/
def Same (reason : Reason ε) (α : Type) (V : α → α → Prop) (p p' : Parser ε α) : Prop :=
  ∀ c, (∀ h, p.run c = .error h → h.reason ≠ reason) → (∃ h, p.run c = .error h ∧ p'.run c = .error h) ∨
    ∃ a a' c₁, p.run c = .ok (a, c₁) ∧ p'.run c = .ok (a', c₁) ∧ V a a'

theorem same_iff_run_eq {reason : Reason ε} {p p' : Parser ε α} : Same reason α (Kept True) p p' ↔
    ∀ c, (∀ h, p.run c = .error h → h.reason ≠ reason) → p'.run c = p.run c := by
  refine forall₂_congr fun c _ => ⟨?_, fun h => ?_⟩
  · rintro (⟨h, hrun, hrun'⟩ | ⟨a, a', c₁, hrun, hrun', hkept⟩)
    · rw [hrun, hrun']
    · rw [hrun, hrun', hkept trivial]
  · cases hrun : p.run c with
    | error e => exact .inl ⟨e, rfl, h.trans hrun⟩
    | ok x => exact .inr ⟨x.1, x.1, x.2, rfl, h.trans hrun, fun _ => rfl⟩

theorem Same.bind {reason : Reason ε} {V : α → α → Prop} {W : β → β → Prop} {p p' : Parser ε α}
    {f f' : α → Parser ε β} (hp : Same reason α V p p') (hf : ∀ a a', V a a' → Same reason β W (f a) (f' a')) :
    Same reason β W (p >>= f) (p' >>= f') := by
  intro c hstops
  rcases hp c fun h hrun => hstops h (run_bind_of_error hrun) with ⟨h, hrun, hrun'⟩ | ⟨a, a', c₁, hrun, hrun', hview⟩
  · exact .inl ⟨h, run_bind_of_error hrun, run_bind_of_error hrun'⟩
  · rw [run_bind_of_ok hrun] at hstops ⊢
    rw [run_bind_of_ok hrun']
    exact hf a a' hview c₁ hstops

theorem congruence_same (reason : Reason ε) : Congruence none (Same reason) := by
  refine .of_steps (fun {_ _ a a'} hview c _ => .inr ⟨a, a', c, rfl, rfl, hview⟩) .bind fun p _ c _ => ?_
  cases p.run c with
  | error e => exact .inl ⟨e, rfl, rfl⟩
  | ok r => exact .inr ⟨r.1, r.1, r.2, rfl, rfl, rfl⟩

variable {resolve resolve' : String → Except ε (List (Capability TypeExpr))}

theorem sim_lookup (h : ∀ name methods, known name → resolve name = .ok methods → resolve' name = .ok methods)
    (names : List String) (name : String) :
    Sim known _ (Kept True) (lookup ⟨names, resolve⟩ name) (lookup ⟨names, resolve'⟩ name) := by
  intro c methods c₁ hrun
  change lookup ⟨names, resolve⟩ name c = _ at hrun
  change _ ∧ (_ → ∃ methods', lookup ⟨names, resolve'⟩ name c = _ ∧ _)
  unfold lookup at hrun ⊢
  dsimp only at hrun ⊢
  split at hrun
  · rename_i methods hmethods
    cases hrun
    refine ⟨List.subset_append_left _ _, fun hknown => ⟨methods, ?_, fun _ => rfl⟩⟩
    rw [h name methods (hknown name (by simp)) hmethods]
  · cases hrun

theorem same_lookup {e : ε} (h : ∀ name, resolve name ≠ .error e → resolve' name = resolve name) (names : List String)
    (name : String) :
    Same (.lookup e) _ (Kept True) (lookup ⟨names, resolve⟩ name) (lookup ⟨names, resolve'⟩ name) := by
  refine same_iff_run_eq.2 fun c hstops => ?_
  change ∀ h, lookup ⟨names, resolve⟩ name c = .error h → _ at hstops
  change lookup ⟨names, resolve'⟩ name c = lookup ⟨names, resolve⟩ name c
  unfold lookup at hstops ⊢
  dsimp only at hstops ⊢
  rw [h name]
  intro he
  rw [he] at hstops
  exact hstops _ rfl rfl

/-- The second lookup gives what the first one does, whenever that succeeds. -/
def Finds (resolve resolve' : String → Except ε (List (Capability TypeExpr))) : Prop :=
  ∀ name methods, resolve name = .ok methods → resolve' name = .ok methods

end Parser

namespace Registry

variable {methods : List (Capability TypeExpr)} {depth : Nat} {name : String}

/-! ## Readings with different lookups -/

section Readings

variable {α β ε : Type} {p p' : Parser Fault α} {text : String}

theorem readWith_sim (h : Parser.Sim known α (Parser.Kept True) p p') {a : α}
    (hread : (readWith text p).result = .ok a) (hknown : ∀ name ∈ (readWith text p).mentions, known name) :
    readWith text p' = readWith text p := by
  unfold readWith at hread hknown ⊢
  cases hstream : Token.tokenize text with
  | error e => rfl
  | ok stream =>
    rw [hstream] at hread hknown
    dsimp only at hread hknown ⊢
    split
    · rename_i hclean
      rw [if_pos hclean] at hread hknown
      cases hrun : p.run ⟨stream.tokens, []⟩ with
      | error e =>
        rw [hrun] at hread
        cases hread
      | ok x =>
        rw [hrun] at hknown
        obtain ⟨a', hrun', hkept⟩ := (h _ _ _ hrun).2 hknown
        rw [hrun', ← hkept trivial]
    · rfl

theorem readWith_same (h : Parser.Same (.lookup .tooDeep) α (Parser.Kept True) p p')
    (hread : (readWith text p).result ≠ .error .tooDeep) :
    readWith text p' = readWith text p := by
  unfold readWith at hread ⊢
  cases hstream : Token.tokenize text with
  | error e => rfl
  | ok stream =>
    rw [hstream] at hread
    dsimp only at hread ⊢
    split
    · rename_i hclean
      rw [if_pos hclean] at hread
      rw [Parser.same_iff_run_eq.1 h ⟨stream.tokens, []⟩]
      rintro ⟨reason, mentions⟩ hrun rfl
      rw [hrun] at hread
      exact hread rfl
    · rfl

/-- Two functions that give the same wherever it matters to the first give the same along a list. -/
theorem mapM_congr_of {f g : α → Except ε β} {as : List α}
    (h : ∀ a ∈ as, (∀ e, f a = .error e → as.mapM f = .error e) → g a = f a) : as.mapM g = as.mapM f := by
  induction as with
  | nil => rfl
  | cons a as ih =>
    rw [List.mapM_cons, List.mapM_cons]
    cases ha : f a with
    | error e =>
      have hsame := h a (by simp) fun e' he' => by rw [List.mapM_cons, he']; rfl
      rw [hsame, ha]
      rfl
    | ok b =>
      have hsame := h a (by simp) fun e' he' => by rw [ha] at he'; cases he'
      rw [hsame, ha]
      have htail : as.mapM g = as.mapM f := by
        refine ih fun a' ha' hstops => h a' (by simp [ha']) fun e he => ?_
        rw [List.mapM_cons, ha, hstops e he]
        rfl
      rw [htail]

theorem exists_of_mapM_ok {f : α → Except ε β} {as : List α} {bs : List β} (h : as.mapM f = .ok bs) {a : α}
    (ha : a ∈ as) : ∃ b, f a = .ok b := by
  induction as generalizing bs with
  | nil => cases ha
  | cons a' as ih =>
    rw [List.mapM_cons] at h
    cases hfirst : f a' with
    | error e =>
      rw [hfirst] at h
      cases h
    | ok b =>
      rw [hfirst] at h
      cases hrest : as.mapM f with
      | error e =>
        rw [hrest] at h
        cases h
      | ok bs' =>
        rcases List.mem_cons.1 ha with rfl | ha
        · exact ⟨b, hfirst⟩
        · exact ih hrest ha

end Readings

variable {resolve resolve' : Resolve} {decls : List CapabilityDecl} {text : String}

/-- What a signature is read as depends on the interfaces that it mentions. -/
theorem readSignature_sim {s : Signature}
    (h : ∀ name ∈ (readSignature resolve text).mentions, ∀ ms, resolve name = .ok ms → resolve' name = .ok ms)
    (hread : (readSignature resolve text).result = .ok s) : readSignature resolve' text = readSignature resolve text := by
  have hsim := (Parser.congruence_sim fun name => ∀ ms, resolve name = .ok ms → resolve' name = .ok ms).wholeSignature
    (Parser.sim_lookup fun name ms hname hms => hname ms hms) text
  exact readWith_sim hsim hread h

theorem readType_sim {typeParams : List String} {t : TypeExpr}
    (h : ∀ name ∈ (readType resolve typeParams text).mentions, ∀ ms, resolve name = .ok ms → resolve' name = .ok ms)
    (hread : (readType resolve typeParams text).result = .ok t) :
    readType resolve' typeParams text = readType resolve typeParams text := by
  have hsim := (Parser.congruence_sim fun name => ∀ ms, resolve name = .ok ms → resolve' name = .ok ms).wholeType
    (Parser.sim_lookup fun name ms hname hms => hname ms hms) typeParams
  exact readWith_sim hsim hread h

/-- The interfaces that are looked up for a declaration. -/
def mentioned (resolve : Resolve) (decls : List CapabilityDecl) : List String :=
  decls.flatMap fun d => d.params.elim [] fun text => (readParams resolve text).mentions

/-- Where a declaration gives something, its parameter lists are read. -/
theorem readParams_ok (hread : decls.mapM (readCapability resolve) = .ok methods) {d : CapabilityDecl}
    (hd : d ∈ decls) (hparams : d.params = some text) : ∃ s, (readParams resolve text).result = .ok s := by
  obtain ⟨c, hc⟩ := exists_of_mapM_ok hread hd
  rw [readCapability, hparams] at hc
  cases hresult : (readParams resolve text).result with
  | error e =>
    simp only [hresult] at hc
    cases hc
  | ok s => exact ⟨s, rfl⟩

/-- What a declaration gives depends on the interfaces that it mentions. -/
theorem mapM_readCapability_sim
    (h : ∀ name ∈ mentioned resolve decls, ∀ ms, resolve name = .ok ms → resolve' name = .ok ms)
    (hread : decls.mapM (readCapability resolve) = .ok methods) :
    decls.mapM (readCapability resolve') = decls.mapM (readCapability resolve) := by
  refine mapM_congr_of fun d hd _ => ?_
  unfold readCapability
  cases hparams : d.params with
  | none => rfl
  | some text =>
    obtain ⟨s, hs⟩ := readParams_ok hread hd hparams
    have hsame : readParams resolve' text = readParams resolve text := by
      refine readSignature_sim (fun name hname => h name (List.mem_flatMap.2 ⟨d, hd, ?_⟩)) hs
      rw [hparams]
      exact hname
    dsimp only
    rw [hsame]

/-! ## Depths -/

/-- The second lookup gives what the first one does, unless that ends too deep. -/
def Deepens (resolve resolve' : Resolve) : Prop :=
  ∀ name, resolve name ≠ .error .tooDeep → resolve' name = resolve name

theorem Deepens.refl (resolve : Resolve) : Deepens resolve resolve := fun _ _ => rfl

section

variable (h : Deepens resolve resolve')
include h

theorem Deepens.trans {resolve'' : Resolve} (h' : Deepens resolve' resolve'') :
    Deepens resolve resolve'' := by
  intro name hname
  have hsame := h name hname
  exact (h' name (hsame ▸ hname)).trans hsame

theorem Deepens.antisymm (h' : Deepens resolve' resolve) : resolve' = resolve := by
  funext name
  by_cases hname : resolve name = .error .tooDeep
  · by_cases hname' : resolve' name = .error .tooDeep
    · rw [hname, hname']
    · exact (h' name hname').symm
  · exact h name hname

theorem Deepens.readParams (hread : (readParams resolve text).result ≠ .error .tooDeep) :
    Registry.readParams resolve' text = Registry.readParams resolve text :=
  readWith_same ((Parser.congruence_same _).wholeSignature (Parser.same_lookup h) _) hread

theorem Deepens.mapM_readCapability
    (hread : decls.mapM (readCapability resolve) ≠ .error .tooDeep) :
    decls.mapM (readCapability resolve') = decls.mapM (readCapability resolve) := by
  refine mapM_congr_of fun d _ hstops => ?_
  unfold readCapability
  cases hparams : d.params with
  | none => rfl
  | some text =>
    dsimp only
    rw [h.readParams fun hdeep => hread (hstops _ ?_)]
    rw [readCapability, hparams]
    simp only [hdeep]
    rfl

theorem Deepens.mentioned_eq
    (hread : decls.mapM (readCapability resolve) = .ok methods) :
    mentioned resolve' decls = mentioned resolve decls := by
  unfold mentioned
  refine List.flatMap_congr fun d hd => ?_
  cases hparams : d.params with
  | none => rw [Option.elim_none, Option.elim_none]
  | some text =>
    obtain ⟨s, hs⟩ := readParams_ok hread hd hparams
    rw [Option.elim_some, Option.elim_some, h.readParams (by rw [hs]; rintro ⟨⟩)]

end

variable {r r' r'' : Registry}

theorem deepens_succ (r : Registry) (depth : Nat) : Deepens (r.interfaceAt depth) (r.interfaceAt (depth + 1)) := by
  induction depth with
  | zero =>
    intro name hname
    exact absurd rfl hname
  | succ depth ih =>
    intro name hname
    rw [interfaceAt] at hname ⊢
    rw [interfaceAt]
    split
    · rfl
    · rename_i hnew
      rw [hnew] at hname
      dsimp only at hname ⊢
      split
      · rfl
      · rename_i decls hdecls
        rw [hdecls] at hname
        exact ih.mapM_readCapability hname

/-- Once looking deeper makes no difference, it makes none ever after. -/
theorem interfaceAt_stable (h : r.interfaceAt (depth + 1) = r.interfaceAt depth) {depth' : Nat} (hle : depth ≤ depth') :
    r.interfaceAt depth' = r.interfaceAt depth := by
  induction hle with
  | refl => rfl
  | @step depth' _ ih =>
    rw [← h]
    funext name
    rw [interfaceAt, interfaceAt, ih]

/-- Where lookups end too deep for the names of a list only, it takes no more steps than there are names until looking
deeper makes no difference. -/
theorem interfaceAt_stable_of_deep {depth : Nat} {names : List String}
    (hnames : ∀ name, r.interfaceAt depth name = .error .tooDeep → name ∈ names) :
    r.interfaceAt (depth + names.length + 1) = r.interfaceAt (depth + names.length) := by
  by_cases hstable : r.interfaceAt (depth + 1) = r.interfaceAt depth
  · rw [interfaceAt_stable hstable (by omega : depth ≤ depth + names.length + 1)]
    exact (interfaceAt_stable hstable (by omega)).symm
  · -- one of the names is found at the next depth, so there is one less for which lookups end too deep
    obtain ⟨name, hne⟩ := Function.ne_iff.1 hstable
    have hdeep : r.interfaceAt depth name = .error .tooDeep := by
      by_contra hfound
      exact hne (r.deepens_succ depth name hfound)
    have hmem := hnames name hdeep
    have hrest : ∀ other, r.interfaceAt (depth + 1) other = .error .tooDeep → other ∈ names.erase name := by
      intro other hother
      have hother' : r.interfaceAt depth other = .error .tooDeep := by
        by_contra hfound
        rw [r.deepens_succ depth other hfound] at hother
        exact hfound hother
      have hdistinct : other ≠ name := by
        rintro rfl
        exact hne (hother.trans hdeep.symm)
      exact (List.mem_erase_of_ne hdistinct).2 (hnames other hother')
    have hlength := List.length_erase_of_mem hmem
    have hpos := List.length_pos_of_mem hmem
    have hdepth : depth + names.length = depth + 1 + (names.erase name).length := by omega
    rw [hdepth]
    exact interfaceAt_stable_of_deep hrest
termination_by names.length

theorem interfaceAt_of_le (h : r.interfaceDepth ≤ depth) : r.interfaceAt depth = r.interfaceOf := by
  have hdeclared : ∀ name, r.interfaceAt 1 name = .error .tooDeep → name ∈ r.interfaces.map (·.1) := by
    intro name hname
    rw [interfaceAt] at hname
    split at hname
    · cases hname
    · split at hname
      · cases hname
      · rename_i decls hdecls
        exact List.mem_map_of_mem (f := Prod.fst) (Table.mem_of_find? hdecls)
  have hstable := interfaceAt_stable_of_deep hdeclared
  rw [List.length_map, Nat.add_comm 1] at hstable
  exact interfaceAt_stable hstable h

theorem deepens_interfaceOf (r : Registry) (depth : Nat) : Deepens (r.interfaceAt depth) r.interfaceOf := by
  have hmono : ∀ more, Deepens (r.interfaceAt depth) (r.interfaceAt (depth + more)) := by
    intro more
    induction more with
    | zero => exact .refl _
    | succ more ih => exact ih.trans (r.deepens_succ (depth + more))
  rw [← interfaceAt_of_le (Nat.le_add_left r.interfaceDepth depth)]
  exact hmono r.interfaceDepth

theorem interfaceOf_of_kept {k : Kept (List (Capability TypeExpr))} (h : r.interfaceNodes.find? name = some k) :
    r.interfaceOf name = .ok k.node := by
  rw [interfaceOf, interfaceDepth, interfaceAt, h]

/-- What an interface asks for that is not kept is what its declaration gives. -/
theorem interfaceOf_eq (h : r.interfaceNodes.find? name = none) :
    r.interfaceOf name = match r.interfaces.find? name with
      | none => .error (.unknownName .ofInterface name)
      | some decls => decls.mapM (readCapability r.interfaceOf) := by
  have hdeeper := congrFun (interfaceAt_of_le (Nat.le_succ r.interfaceDepth)) name
  rw [interfaceAt, h] at hdeeper
  exact hdeeper.symm

/-! ## Kept interfaces -/

/-- Lookups in a registry that keeps other nodes give the same, if those are kept that would be found. -/
theorem deepens_of_kept (hinterfaces : r'.interfaces.find? = r.interfaces.find?)
    (hfound : ∀ name k, r'.interfaceNodes.find? name = some k → r.interfaceOf name = .ok k.node)
    (hkept : ∀ name k, r.interfaceNodes.find? name = some k → r'.interfaceOf name = .ok k.node) (depth : Nat) :
    Deepens (r.interfaceAt depth) r'.interfaceOf := by
  induction depth with
  | zero =>
    intro name hname
    exact absurd rfl hname
  | succ depth ih =>
    intro name hname
    cases hnew : r.interfaceNodes.find? name with
    | some k => rw [hkept name k hnew, interfaceAt, hnew]
    | none =>
      cases hnew' : r'.interfaceNodes.find? name with
      | some k =>
        rw [interfaceOf_of_kept hnew', ← hfound name k hnew']
        exact r.deepens_interfaceOf _ name hname
      | none =>
        rw [interfaceAt, hnew] at hname ⊢
        rw [interfaceOf_eq hnew', hinterfaces]
        cases hdecls : r.interfaces.find? name with
        | none => rfl
        | some decls =>
          rw [hdecls] at hname
          exact ih.mapM_readCapability hname

theorem interfaceOf_congr (hinterfaces : r'.interfaces.find? = r.interfaces.find?)
    (hfound : ∀ name k, r'.interfaceNodes.find? name = some k → r.interfaceOf name = .ok k.node)
    (hkept : ∀ name k, r.interfaceNodes.find? name = some k → r'.interfaceOf name = .ok k.node) :
    r'.interfaceOf = r.interfaceOf :=
  (deepens_of_kept hinterfaces hfound hkept _).antisymm (deepens_of_kept hinterfaces.symm hkept hfound _)

/-- The second registry keeps the nodes of the first, and others that are found there. -/
structure Keeps (r r' : Registry) : Prop where
  interfaces : r'.interfaces = r.interfaces
  kept : ∀ name k, r.interfaceNodes.find? name = some k → r'.interfaceNodes.find? name = some k
  found : ∀ name k, r'.interfaceNodes.find? name = some k → r.interfaceOf name = .ok k.node

namespace Keeps

theorem refl (r : Registry) : Keeps r r := ⟨rfl, fun _ _ h => h, fun _ _ h => interfaceOf_of_kept h⟩

theorem interfaceOf (h : Keeps r r') : r'.interfaceOf = r.interfaceOf :=
  interfaceOf_congr (congrArg _ h.interfaces) h.found fun name k hk => interfaceOf_of_kept (h.kept name k hk)

theorem trans (h : Keeps r r') (h' : Keeps r' r'') : Keeps r r'' where
  interfaces := h'.interfaces.trans h.interfaces
  kept name k hk := h'.kept name k (h.kept name k hk)
  found name k hk := by
    rw [← h.interfaceOf]
    exact h'.found name k hk

theorem foldl {α β : Type} (view : β → Registry) {f : β → α → β} (hf : ∀ b a, Keeps (view b) (view (f b a)))
    (as : List α) (b : β) : Keeps (view b) (view (as.foldl f b)) := by
  induction as generalizing b with
  | nil => exact .refl _
  | cons a as ih => exact (hf b a).trans (ih (f b a))

theorem keepInterface (h : Keeps r r') (hnew : r.interfaceNodes.find? name = none)
    (hmethods : r.interfaceOf name = .ok methods) : Keeps r (r'.keepInterface name methods) := by
  refine ⟨h.interfaces, fun other k hk => ?_, fun other k hk => ?_⟩
  · have hne : other ≠ name := by
      rintro rfl
      rw [hnew] at hk
      cases hk
    exact (Table.find?_insert_of_ne _ _ hne).trans (h.kept other k hk)
  · change (r'.interfaceNodes.insert name ⟨r'.serial, methods⟩).find? other = some k at hk
    by_cases hne : other = name
    · subst hne
      rw [Table.find?_insert_self] at hk
      cases hk
      exact hmethods
    · rw [Table.find?_insert_of_ne _ _ hne] at hk
      exact h.found other k hk

end Keeps

theorem keeps_rememberInterface (depth : Nat) (r : Registry) (name : String) : Keeps r (rememberInterface depth r name) := by
  induction depth generalizing r name with
  | zero => exact .refl r
  | succ depth ih =>
    rw [rememberInterface]
    split
    · exact .refl r
    · rename_i hnew
      rw [Option.not_isSome_iff_eq_none] at hnew
      split
      · exact .refl r
      · rename_i decls _
        dsimp only
        generalize hlook : List.foldl _ (r, true) decls = after
        have hafter : Keeps r after.1 := by
          subst hlook
          refine Keeps.foldl (Prod.fst : Registry × Bool → Registry) (fun acc d => ?_) decls (r, true)
          split
          · exact .foldl id ih _ _
          · exact .refl _
        split
        · rename_i methods hmethods
          refine hafter.keepInterface hnew ?_
          rw [r.deepens_interfaceOf _ name (by rw [hmethods]; rintro ⟨⟩), hmethods]
        · exact hafter

theorem keeps_rememberAll (r : Registry) (mentions : List String) : Keeps r (r.rememberAll mentions) :=
  .foldl id (keeps_rememberInterface r.interfaceDepth) mentions r

/-- What an interface asks for it still asks for after others were looked up. -/
theorem interfaceOf_rememberAll (r : Registry) (mentions : List String) :
    (r.rememberAll mentions).interfaceOf = r.interfaceOf :=
  (r.keeps_rememberAll mentions).interfaceOf

theorem finds_rememberAll (r : Registry) (mentions : List String) :
    Parser.Finds r.interfaceOf (r.rememberAll mentions).interfaceOf := by
  rw [interfaceOf_rememberAll]
  exact fun _ _ h => h

end Registry

end Conformance
