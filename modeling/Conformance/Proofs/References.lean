import Mathlib
import Conformance.Proofs.Caches
import Conformance.Proofs.Mentions
import Conformance.Proofs.Slots

/-!
# Interfaces that refer to others

The parameter lists of an interface can mention other interfaces, which are looked up when the interface is.  A
registration does not look at them, so an interface may be declared before those that it refers to, and it may refer to
itself, directly or through others.  Then its lookup does not end: a node is kept only after its capabilities are read,
so the interface is met again before it is known.

Main statement: `interface_found_iff`.  If all parameter lists can be read and mention registered interfaces only, an
interface is found unless it is `Circular`, and the only other end of its lookup is that it goes too deep.
-/

namespace Conformance

namespace Registry

variable {r : Registry} {decls : List CapabilityDecl} {a b name : String} {d : CapabilityDecl}

/-! ## Declarations -/

/-- The lookup that finds every interface. -/
def everything : Resolve := fun _ => .ok []

/-- A parameter list that can be read if the interfaces are found that it mentions. -/
def WellFormed (text : String) : Prop := ∃ s, (readParams everything text).result = .ok s

/-- The declaration of the first interface mentions the second. -/
def Refers (r : Registry) (a b : String) : Prop :=
  ∃ decls, r.interfaces.find? a = some decls ∧ b ∈ mentioned everything decls

/-- The interface is, or refers through others to, one that refers to itself in the same way. -/
def Circular (r : Registry) (name : String) : Prop :=
  ∃ a, Relation.ReflTransGen r.Refers name a ∧ Relation.TransGen r.Refers a a

/-- A capability is the declared one, with its parameters read. -/
structure Fulfils (r : Registry) (d : CapabilityDecl) (c : Capability TypeExpr) : Prop where
  name : c.name = d.name
  explicit : c.explicit = d.explicit
  params : c.params.map Except.ok = d.params.map fun text => (readParams r.interfaceOf text).result.map (·.params)

theorem fulfils_of_readCapability {c : Capability TypeExpr} (h : readCapability r.interfaceOf d = .ok c) :
    r.Fulfils d c := by
  unfold readCapability at h
  cases htext : d.params with
  | none =>
    rw [htext] at h
    cases h
    exact ⟨rfl, rfl, by rw [htext]; rfl⟩
  | some text =>
    rw [htext] at h
    dsimp only at h
    cases hresult : (readParams r.interfaceOf text).result with
    | error e =>
      rw [hresult] at h
      cases h
    | ok s =>
      rw [hresult] at h
      cases h
      refine ⟨rfl, rfl, ?_⟩
      simp only [htext, Option.map_some, hresult, Except.map]

theorem readCapability_follows (h : ∀ text ∈ d.params, WellFormed text) (resolve : Resolve) :
    (∃ c, readCapability resolve d = .ok c ∧
        ∀ name ∈ d.params.elim [] fun text => (readParams everything text).mentions, ∃ ms, resolve name = .ok ms) ∨
      ∃ name ∈ d.params.elim [] fun text => (readParams everything text).mentions, ∃ e, resolve name = .error e ∧
        readCapability resolve d = .error e := by
  unfold readCapability
  cases htext : d.params with
  | none => exact .inl ⟨_, rfl, fun name hname => by cases hname⟩
  | some text =>
    obtain ⟨s₀, hs₀⟩ := h text htext
    dsimp only [Option.elim_some]
    rcases readSignature_follows hs₀ resolve with ⟨⟨s, hs⟩, hfound⟩ | ⟨name, hname, e, he, hfails⟩
    · exact .inl ⟨⟨d.name, some s.params, d.explicit⟩, by rw [readParams, hs]; rfl, hfound⟩
    · exact .inr ⟨name, hname, e, he, by rw [readParams, hfails]; rfl⟩

/-- What becomes of a well-formed declaration: it is read if all interfaces that it mentions are found, and otherwise
the lookup of one of them is why it is not. -/
theorem mapM_readCapability_follows (h : ∀ d ∈ decls, ∀ text ∈ d.params, WellFormed text) (resolve : Resolve) :
    (∃ methods, decls.mapM (readCapability resolve) = .ok methods ∧
        ∀ name ∈ mentioned everything decls, ∃ ms, resolve name = .ok ms) ∨
      ∃ name ∈ mentioned everything decls, ∃ e, resolve name = .error e ∧
        decls.mapM (readCapability resolve) = .error e := by
  induction decls with
  | nil => exact .inl ⟨[], rfl, by simp [mentioned]⟩
  | cons d decls ih =>
    have hmentioned : mentioned everything (d :: decls) =
        (d.params.elim [] fun text => (readParams everything text).mentions) ++ mentioned everything decls := rfl
    rw [hmentioned, List.mapM_cons]
    rcases readCapability_follows (h d List.mem_cons_self) resolve with ⟨c, hc, hfound⟩ | ⟨name, hname, e, he, hfails⟩
    · rw [hc]
      rcases ih fun d' hd' => h d' (List.mem_cons_of_mem d hd') with ⟨cs, hcs, hfound'⟩ | ⟨name, hname, e, he, hfails⟩
      · rw [hcs]
        exact .inl ⟨c :: cs, rfl, fun name hname => (List.mem_append.1 hname).elim (hfound name) (hfound' name)⟩
      · rw [hfails]
        exact .inr ⟨name, List.mem_append_right _ hname, e, he, rfl⟩
    · rw [hfails]
      exact .inr ⟨name, List.mem_append_left _ hname, e, he, rfl⟩

/-! ## Registries -/

/-- Every declaration can be read and mentions registered interfaces only, and nothing was looked up yet. -/
structure Complete (r : Registry) : Prop where
  wellFormed : ∀ name decls, r.interfaces.find? name = some decls → ∀ d ∈ decls, ∀ text ∈ d.params, WellFormed text
  registered : ∀ a b, r.Refers a b → ∃ decls, r.interfaces.find? b = some decls
  unkept : r.interfaceNodes = []

namespace Complete

variable {depth : Nat}

section

variable (h : r.Complete)
include h

theorem interfaceAt_succ (hname : r.interfaces.find? name = some decls) (depth : Nat) :
    r.interfaceAt (depth + 1) name = decls.mapM (readCapability (r.interfaceAt depth)) := by
  rw [interfaceAt, h.unkept, hname]
  rfl

theorem interfaceOf_eq (hname : r.interfaces.find? name = some decls) :
    r.interfaceOf name = decls.mapM (readCapability r.interfaceOf) := by
  have hnew : r.interfaceNodes.find? name = none := by
    rw [h.unkept]
    rfl
  rw [Registry.interfaceOf_eq hnew, hname]

/-- The lookup of a registered interface fails for no other reason than depth. -/
theorem tooDeep {e : Fault} (hname : r.interfaces.find? name = some decls)
    (herror : r.interfaceAt depth name = .error e) : e = .tooDeep := by
  induction depth generalizing name decls with
  | zero =>
    cases herror
    rfl
  | succ depth ih =>
    rw [h.interfaceAt_succ hname] at herror
    rcases mapM_readCapability_follows (h.wellFormed name decls hname) (r.interfaceAt depth) with
      ⟨methods, hok, -⟩ | ⟨other, hother, e', hlookup, hfails⟩
    · rw [hok] at herror
      cases herror
    · rw [hfails] at herror
      cases herror
      obtain ⟨decls', hdecls'⟩ := h.registered name other ⟨decls, hname, hother⟩
      exact ih hdecls' hlookup

/-- What an interface refers to is found one step earlier. -/
theorem found_of_refers (hab : r.Refers a b) {methods : List (Capability TypeExpr)}
    (ha : r.interfaceAt depth a = .ok methods) : ∃ depth' < depth, ∃ ms, r.interfaceAt depth' b = .ok ms := by
  obtain ⟨decls, hdecls, hb⟩ := hab
  cases depth with
  | zero => cases ha
  | succ depth =>
    rw [h.interfaceAt_succ hdecls] at ha
    rcases mapM_readCapability_follows (h.wellFormed a decls hdecls) (r.interfaceAt depth) with
      ⟨_, -, hfound⟩ | ⟨_, _, e, -, hfails⟩
    · exact ⟨depth, Nat.lt_succ_self depth, hfound b hb⟩
    · rw [hfails] at ha
      cases ha

theorem found_of_transGen (hab : Relation.TransGen r.Refers a b)
    {methods : List (Capability TypeExpr)} (ha : r.interfaceAt depth a = .ok methods) :
    ∃ depth' < depth, ∃ ms, r.interfaceAt depth' b = .ok ms := by
  induction hab with
  | single hab => exact h.found_of_refers hab ha
  | tail _ hbc ih =>
    obtain ⟨depth', hlt, ms, hms⟩ := ih
    obtain ⟨depth'', hlt', hfound⟩ := h.found_of_refers hbc hms
    exact ⟨depth'', hlt'.trans hlt, hfound⟩

/-- An interface that refers to itself is found at no depth: there would be a smaller one. -/
theorem not_found_of_cycle (ha : Relation.TransGen r.Refers a a) (depth : Nat)
    (methods : List (Capability TypeExpr)) : r.interfaceAt depth a ≠ .ok methods := by
  induction depth using Nat.strong_induction_on generalizing methods with
  | _ depth ih =>
    intro hfound
    obtain ⟨depth', hlt, ms, hms⟩ := h.found_of_transGen ha hfound
    exact ih depth' hlt ms hms

theorem not_found_of_circular (hname : r.Circular name) (depth : Nat)
    (methods : List (Capability TypeExpr)) : r.interfaceAt depth name ≠ .ok methods := by
  obtain ⟨a, hreach, hcycle⟩ := hname
  intro hfound
  rcases Relation.reflTransGen_iff_eq_or_transGen.1 hreach with rfl | hreach
  · exact h.not_found_of_cycle hcycle depth methods hfound
  · obtain ⟨depth', -, ms, hms⟩ := h.found_of_transGen hreach hfound
    exact h.not_found_of_cycle hcycle depth' ms hms

/-! ## Interfaces that are found -/

theorem registered_of_reflTransGen (hname : r.interfaces.find? name = some decls)
    (ha : Relation.ReflTransGen r.Refers name a) : ∃ decls', r.interfaces.find? a = some decls' := by
  cases ha with
  | refl => exact ⟨decls, hname⟩
  | tail _ hba => exact h.registered _ a hba

/-- Below an interface that is not circular, references come to an end. -/
theorem wellFounded_refers (hname : r.interfaces.find? name = some decls) (hno : ¬ r.Circular name) :
    WellFounded fun x y : { a // Relation.ReflTransGen r.Refers name a } => Relation.TransGen r.Refers y.1 x.1 := by
  have hfinite : Finite { a // Relation.ReflTransGen r.Refers name a } := by
    refine Set.Finite.subset (List.finite_toSet (r.interfaces.map (·.1))) fun a ha => ?_
    obtain ⟨decls', hdecls'⟩ := h.registered_of_reflTransGen hname ha
    exact List.mem_map_of_mem (f := Prod.fst) (Table.mem_of_find? hdecls')
  have htrans : IsTrans { a // Relation.ReflTransGen r.Refers name a } fun x y => Relation.TransGen r.Refers y.1 x.1 :=
    ⟨fun _ _ _ hxy hyz => hyz.trans hxy⟩
  have hirrefl : Std.Irrefl fun x y : { a // Relation.ReflTransGen r.Refers name a } =>
      Relation.TransGen r.Refers y.1 x.1 :=
    ⟨fun x hx => hno ⟨x.1, x.2, hx⟩⟩
  exact Finite.wellFounded_of_trans_of_irrefl _

theorem found_of_not_circular (hname : r.interfaces.find? name = some decls) (hno : ¬ r.Circular name) :
    ∃ methods, r.interfaceOf name = .ok methods := by
  have hall := (h.wellFounded_refers hname hno).induction (C := fun x => ∃ methods, r.interfaceOf x.1 = .ok methods)
    ⟨name, .refl⟩
  refine hall fun ⟨a, ha⟩ ih => ?_
  obtain ⟨decls', hdecls'⟩ := h.registered_of_reflTransGen hname ha
  rw [h.interfaceOf_eq hdecls']
  rcases mapM_readCapability_follows (h.wellFormed a decls' hdecls') r.interfaceOf with
    ⟨methods, hok, -⟩ | ⟨b, hb, e, hlookup, -⟩
  · exact ⟨methods, hok⟩
  · have hab : r.Refers a b := ⟨decls', hdecls', hb⟩
    obtain ⟨ms, hms⟩ := ih ⟨b, ha.tail hab⟩ (.single hab)
    rw [hlookup] at hms
    cases hms

end

end Complete

/-! ## Registrations -/

theorem wellFormed_untyped : WellFormed "(untyped)" :=
  ⟨{ params := { required := [⟨.untyped, none⟩] }, result := .untyped, text := "(untyped) -> untyped" }, by cbv⟩

theorem mentions_untyped : (readParams everything "(untyped)").mentions = [] := by cbv

/-- The interfaces known from the start ask for no types. -/
theorem params_of_core {text : String} (hname : coreInterfaces.find? name = some decls) (hd : d ∈ decls)
    (htext : text ∈ d.params) : text = "(untyped)" := by
  have hcore : ∀ e ∈ coreInterfaces, ∀ d ∈ e.2, ∀ text ∈ d.params, text = "(untyped)" := by decide
  exact hcore (name, decls) (Table.mem_of_find? hname) d hd text htext

theorem mentioned_core (hname : coreInterfaces.find? name = some decls) : mentioned everything decls = [] := by
  refine List.flatMap_eq_nil_iff.2 fun d hd => ?_
  cases htext : d.params with
  | none => rfl
  | some text => rw [Option.elim_some, params_of_core hname hd htext, mentions_untyped]

/-- The registry after interfaces were registered one after another. -/
def declared (calls : List (String × List CapabilityDecl)) : Registry :=
  initial.after (calls.map fun call => .registerInterface call.1 call.2)

variable {calls : List (String × List CapabilityDecl)}

/-- A registry keeps nothing when interfaces are registered, and each of its declarations was registered or known from
the start. -/
theorem declared_spec (calls : List (String × List CapabilityDecl)) : (declared calls).interfaceNodes = [] ∧
    ∀ name decls, (declared calls).interfaces.find? name = some decls →
      coreInterfaces.find? name = some decls ∨ (name, decls) ∈ calls := by
  induction calls using List.reverseRecOn with
  | nil => exact ⟨rfl, fun _ _ => .inl⟩
  | append_singleton calls call ih =>
    have hafter : declared (calls ++ [call]) =
        ((Op.registerInterface call.1 call.2).apply (declared calls)).2 := by
      rw [declared, List.map_append, after, List.foldl_append]
      rfl
    rw [hafter, Op.apply]
    rcases registerInterface_cases call.1 call.2 with hok | herror
    · rw [hok]
      refine ⟨?_, fun name decls hname => ?_⟩
      · change (declared calls).interfaceNodes.erase call.1 = []
        rw [ih.1]
        rfl
      · change ((declared calls).interfaces.insert call.1 call.2).find? name = some decls at hname
        by_cases hne : name = call.1
        · subst hne
          rw [Table.find?_insert_self] at hname
          cases hname
          exact .inr (by simp)
        · rw [Table.find?_insert_of_ne _ _ hne] at hname
          exact (ih.2 name decls hname).imp_right (List.mem_append_left _)
    · rw [herror]
      exact ⟨ih.1, fun name decls hname => (ih.2 name decls hname).imp_right (List.mem_append_left _)⟩

theorem complete_declared
    (hvalid : ∀ call ∈ calls, ∀ d ∈ call.2, ∀ text ∈ d.params, WellFormed text)
    (hknown : ∀ call ∈ calls, ∀ name ∈ mentioned everything call.2, ((declared calls).interfaces.find? name).isSome) :
    (declared calls).Complete := by
  obtain ⟨hunkept, hfrom⟩ := declared_spec calls
  refine ⟨fun name decls hname d hd text htext => ?_, ?_, hunkept⟩
  · rcases hfrom name decls hname with hcore | hcall
    · rw [params_of_core hcore hd htext]
      exact wellFormed_untyped
    · exact hvalid (name, decls) hcall d hd text htext
  · rintro a b ⟨decls, ha, hb⟩
    rcases hfrom a decls ha with hcore | hcall
    · rw [mentioned_core hcore] at hb
      cases hb
    · exact Option.isSome_iff_exists.1 (hknown (a, decls) hcall b hb)

/-- After registrations of interfaces whose parameter lists can be read and mention registered interfaces only, a
registered interface is found, with a capability for each declared one, exactly if it is not circular; otherwise its
lookup goes too deep. -/
theorem interface_found_iff {calls : List (String × List CapabilityDecl)}
    (hvalid : ∀ call ∈ calls, ∀ d ∈ call.2, ∀ text ∈ d.params, WellFormed text)
    (hknown : ∀ call ∈ calls, ∀ name ∈ mentioned everything call.2, ((declared calls).interfaces.find? name).isSome)
    {name : String} {decls : List CapabilityDecl} (hname : (declared calls).interfaces.find? name = some decls) :
    (¬ (declared calls).Circular name → ∃ kept, ((declared calls).interface name).1 = .ok kept ∧
        List.Forall₂ (declared calls).Fulfils decls kept.node) ∧
      ((declared calls).Circular name → ((declared calls).interface name).1 = .error .tooDeep) := by
  have hcomplete := complete_declared hvalid hknown
  have hnode := (declared calls).interface_node name
  constructor
  · intro hno
    obtain ⟨methods, hmethods⟩ := hcomplete.found_of_not_circular hname hno
    rw [hmethods] at hnode
    cases hfound : ((declared calls).interface name).1 with
    | error e =>
      rw [hfound] at hnode
      cases hnode
    | ok kept =>
      rw [hfound] at hnode
      cases hnode
      rw [hcomplete.interfaceOf_eq hname] at hmethods
      exact ⟨kept, rfl, (forall₂_of_mapM_ok hmethods).imp fun _ _ => fulfils_of_readCapability⟩
  · intro hcircular
    cases hfound : ((declared calls).interface name).1 with
    | ok kept =>
      rw [hfound] at hnode
      exact absurd hnode.symm (hcomplete.not_found_of_circular hcircular _ _)
    | error e =>
      rw [hfound] at hnode
      rw [hcomplete.tooDeep hname hnode.symm]

/-- Two interfaces, of which the first refers to the second before that is registered, and one that refers to itself. -/
def looping : List (String × List CapabilityDecl) := [
  ("_A", [⟨"drain", some "(_B, ?int)", false⟩]),
  ("_B", [⟨"size", none, true⟩, ⟨"read", some "(_ToInt)", false⟩]),
  ("_C", [⟨"add", some "(_C)", false⟩])]

theorem declared_looping : declared looping =
    ((initial.withInterface "_A" [⟨"drain", some "(_B, ?int)", false⟩]).withInterface "_B"
      [⟨"size", none, true⟩, ⟨"read", some "(_ToInt)", false⟩]).withInterface "_C" [⟨"add", some "(_C)", false⟩] := by
  have hname (name : String) (h : (((name.splitOn "::").getLast?).getD "").startsWith "_" = true)
      (r : Registry) (decls : List CapabilityDecl) :
      ((Op.registerInterface name decls).apply r).2 = r.withInterface name decls := by
    rw [Op.apply, registerInterface, if_pos h]
    rfl
  simp only [declared, looping, List.map_cons, List.map_nil, after, List.foldl_cons, List.foldl_nil]
  rw [hname "_A" (by cbv), hname "_B" (by cbv), hname "_C" (by cbv)]

theorem mentioned_looping : (looping.flatMap fun call => (mentioned everything call.2).map (call.1, ·)) =
    [("_A", "_B"), ("_B", "_ToInt"), ("_C", "_C")] := by cbv

/-- How far an interface that does not refer to itself leads. -/
def span (name : String) : Nat := if name = "_A" then 2 else if name = "_B" then 1 else 0

theorem refers_looping (h : (declared looping).Refers a b) : a = "_C" ∨ b ≠ "_C" ∧ span b < span a := by
  obtain ⟨decls, ha, hb⟩ := h
  rcases (declared_spec looping).2 a decls ha with hcore | hcall
  · rw [mentioned_core hcore] at hb
    cases hb
  · have hpair : (a, b) ∈ [("_A", "_B"), ("_B", "_ToInt"), ("_C", "_C")] := by
      rw [← mentioned_looping]
      exact List.mem_flatMap.2 ⟨(a, decls), hcall, List.mem_map_of_mem hb⟩
    have hall : ∀ e ∈ [("_A", "_B"), ("_B", "_ToInt"), ("_C", "_C")], e.1 = "_C" ∨ e.2 ≠ "_C" ∧ span e.2 < span e.1 := by
      decide
    exact hall (a, b) hpair

theorem not_circular_looping : ¬ (declared looping).Circular "_A" := by
  rintro ⟨a, hreach, hcycle⟩
  have hdown {x y : String} (hx : x ≠ "_C") (hxy : Relation.TransGen (declared looping).Refers x y) :
      y ≠ "_C" ∧ span y < span x := by
    induction hxy with
    | single hxy => exact (refers_looping hxy).resolve_left hx
    | tail _ hyz ih =>
      obtain ⟨hz, hlt⟩ := (refers_looping hyz).resolve_left ih.1
      exact ⟨hz, hlt.trans ih.2⟩
  have ha : a ≠ "_C" := by
    rcases Relation.reflTransGen_iff_eq_or_transGen.1 hreach with rfl | hreach
    · decide
    · exact (hdown (by decide) hreach).1
  exact lt_irrefl _ (hdown ha hcycle).2

theorem interface_found_iff_looping :
    (∃ kept, ((declared looping).interface "_A").1 = .ok kept ∧
      List.Forall₂ (declared looping).Fulfils [⟨"drain", some "(_B, ?int)", false⟩] kept.node) ∧
    ((declared looping).interface "_C").1 = .error .tooDeep := by
  have hchain : (declared looping).interfaces.find? "_A" = some [⟨"drain", some "(_B, ?int)", false⟩] := by
    rw [declared_looping]
    decide
  have hloop : (declared looping).interfaces.find? "_C" = some [⟨"add", some "(_C)", false⟩] := by
    rw [declared_looping]
    decide
  have hvalid : ∀ call ∈ looping, ∀ d ∈ call.2, ∀ text ∈ d.params, WellFormed text := by
    have hall : (looping.flatMap fun call => call.2.filterMap (·.params)).all
        (fun text => (readParams everything text).result.isOk) = true := by cbv
    intro call hcall d hd text htext
    have hok := List.all_eq_true.1 hall text (List.mem_flatMap.2 ⟨call, hcall, List.mem_filterMap.2 ⟨d, hd, htext⟩⟩)
    unfold WellFormed
    cases hread : (readParams everything text).result with
    | error e =>
      rw [hread] at hok
      cases hok
    | ok s => exact ⟨s, rfl⟩
  have hknown : ∀ call ∈ looping, ∀ name ∈ mentioned everything call.2,
      ((declared looping).interfaces.find? name).isSome := by
    intro call hcall name hname
    have hmem : (call.1, name) ∈ [("_A", "_B"), ("_B", "_ToInt"), ("_C", "_C")] := by
      rw [← mentioned_looping]
      exact List.mem_flatMap.2 ⟨call, hcall, List.mem_map_of_mem hname⟩
    have hall : ∀ e ∈ [("_A", "_B"), ("_B", "_ToInt"), ("_C", "_C")],
        ((declared looping).interfaces.find? e.2).isSome := by
      rw [declared_looping]
      decide
    exact hall _ hmem
  have hself : mentioned everything [⟨"add", some "(_C)", false⟩] = ["_C"] := by cbv
  have hcircular : (declared looping).Circular "_C" :=
    ⟨"_C", .refl, .single ⟨_, hloop, by rw [hself]; exact List.mem_singleton_self _⟩⟩
  exact ⟨(interface_found_iff hvalid hknown hchain).1 not_circular_looping,
    (interface_found_iff hvalid hknown hloop).2 hcircular⟩

end Registry

end Conformance
