import Conformance.Proofs.ClassNames
import Conformance.Proofs.Law
import Conformance.Proofs.Reachability
import Conformance.Proofs.Slots
import Conformance.Proofs.Succession
import Conformance.Session

/-!
# When the fault of a signature turns up

A signature whose text is malformed, or that has a name in it which means nothing, is to be found out before the
call is made.  For that, every name that stands in a signature is looked up when the signature is read.  What the
names in an alias mean is not looked into then, and a signature that was kept is not looked up again: those are the
two ways in which a fault of a signature can come to light only when the values of the call are judged
(`Registry.Overlooked`).

All other faults of signatures leave the program untouched, and none of them is entered in the ledger.
-/

namespace Conformance

variable {t : TypeExpr} {i : Invocation}

/-- Is the fault one of a signature: a text that is none, or a name that means nothing? -/
def Fault.isSignature : Fault → Bool
  | malformed _ _ | unknownName _ _ => true
  | _ => false

theorem Fault.isSignature_of_isInspection {e : Fault} (h : e.isInspection = true) : e.isSignature = false := by
  cases e <;> first | rfl | cases h

namespace TypeExpr

/-! ## Names that lead nowhere -/

/-- Looking up the name that a type starts with ends in the fault. -/
inductive Dangles (r : Registry) (e : Fault) : TypeExpr → Prop
  | expansion {name : String} {args : List TypeExpr} (halias : r.isAlias name = true)
      (h : r.expansionOf name = .error e) : Dangles r e (.classRef name args)
  | className {name : String} {args : List TypeExpr} (halias : r.isAlias name = false)
      (h : r.classOf name = .error e) : Dangles r e (.classRef name args)
  | singleton {name : String} (h : r.classOf name = .error e) : Dangles r e (.singleton name)

/-- Judging by the type can lead to a name that ends in the fault. -/
def Leads (r : Registry) (e : Fault) (t : TypeExpr) : Prop := ∃ u, t.Within r u ∧ u.Dangles r e

/-- Judging by the type can lead to an alias, and that to a name that ends in the fault. -/
def Hides (r : Registry) (e : Fault) (t : TypeExpr) : Prop :=
  ∃ name args, t.Within r (.classRef name args) ∧ r.isAlias name = true ∧ Leads r e (.classRef name args)

/-- A part of a type that is no alias stands in the type. -/
theorem Part.mem_children {r : Registry} {u : TypeExpr} (h : Part r t u)
    (ht : ∀ name args, t = .classRef name args → r.isAlias name = false) : u ∈ t.children := by
  cases h with
  | expansion halias _ => rw [ht _ _ rfl] at halias; cases halias
  | argument _ h | alternative h | conjunct h | element h => exact h
  | field h => exact List.mem_append_left _ (List.mem_map_of_mem h)
  | extra => exact List.mem_append_right _ (List.mem_singleton_self _)
  | inner => exact List.mem_singleton_self _

/-- Where all class names in a type mean something, what judging by it leads to is behind an alias. -/
theorem Leads.hides {r : Registry} {e : Fault} (h : t.Leads r e)
    (hnames : ∀ name ∈ t.classNames r.isAlias, ∃ c, r.classOf name = .ok c) : t.Hides r e := by
  obtain ⟨u, hwithin, hdangles⟩ := h
  induction hwithin using Relation.ReflTransGen.head_induction_on with
  | refl =>
    cases hdangles with
    | @expansion name args halias hfails =>
      exact ⟨name, args, .refl, halias, _, .refl, .expansion halias hfails⟩
    | @className name args halias hfails =>
      have hmem : name ∈ (classRef name args).classNames r.isAlias := by
        rw [classNames, halias]
        exact List.mem_cons_self
      obtain ⟨c, hc⟩ := hnames name hmem
      rw [hc] at hfails
      cases hfails
    | @singleton name hfails =>
      obtain ⟨c, hc⟩ := hnames name (List.mem_singleton_self _)
      rw [hc] at hfails
      cases hfails
  | @head t v hpart hwithin ih =>
    by_cases halias : ∃ name args, t = classRef name args ∧ r.isAlias name = true
    · obtain ⟨name, args, rfl, halias⟩ := halias
      exact ⟨name, args, .refl, halias, u, .head hpart hwithin, hdangles⟩
    · have hplain : ∀ name args, t = classRef name args → r.isAlias name = false := by
        intro name args ht
        by_contra hname
        exact halias ⟨name, args, ht, by simpa using hname⟩
      obtain ⟨name, args, hto, halias, hleads⟩ :=
        ih fun x hx => hnames x (mem_classNames_of_child (hpart.mem_children hplain) hplain hx)
      exact ⟨name, args, .head hpart hto, halias, hleads⟩

end TypeExpr

namespace Registry

/-! ## Reading signatures -/

/-- Registries in which names mean the same, and whose signatures are old ones or ones that were looked up. -/
structure Vetted (before r : Registry) : Prop where
  classOf : r.classOf = before.classOf
  aliases : r.aliases = before.aliases
  signatures : ∀ text kept, r.signatures.find? text = some kept →
    before.signatures.find? text = some kept ∨ before.Settled kept.node

variable {before r : Registry}

theorem Vetted.refl (r : Registry) : Vetted r r := ⟨rfl, rfl, fun _ _ h => .inl h⟩

theorem Vetted.settled (h : Vetted before r) (s : Signature) : r.Settled s ↔ before.Settled s := by
  unfold Settled isAlias
  rw [h.classOf, h.aliases]

theorem Vetted.of_bare (h : Vetted before r) {r' : Registry} (hbare : r'.bare = r.bare)
    (hclassOf : r'.classOf = r.classOf) : Vetted before r' := by
  have haliases : r'.bare.aliases = r.bare.aliases := by rw [hbare]
  have hsignatures : r'.bare.signatures = r.bare.signatures := by rw [hbare]
  exact ⟨hclassOf.trans h.classOf, haliases.trans h.aliases, fun text kept hkept =>
    h.signatures text kept (hsignatures ▸ hkept)⟩

theorem Vetted.withSignature (h : Vetted before r) {text : String} {kept : Kept Signature}
    (hkept : before.Settled kept.node) : Vetted before (r.withSignature text kept) := by
  refine ⟨h.classOf, h.aliases, fun text' kept' hkept' => ?_⟩
  change (r.signatures.insert text kept).find? text' = some kept' at hkept'
  by_cases htext : text' = text
  · rw [htext, Table.find?_insert_self] at hkept'
    cases hkept'
    exact .inr hkept
  · rw [Table.find?_insert_of_ne _ _ htext] at hkept'
    exact h.signatures text' kept' hkept'

/-- A signature that is read was kept from the beginning, or all class names in it mean something. -/
theorem Vetted.signature (h : Vetted before r) (text : String) :
    Vetted before (r.signature text).2.1 ∧ ∀ kept, (r.signature text).1 = .ok kept →
      before.signatures.find? text = some kept ∨ before.Settled kept.node := by
  rcases signature_cases r text with ⟨kept, hkept, heq⟩ | ⟨e, he, hbare⟩ | ⟨kept, hok, -, hsettled, hbare⟩
  · rw [heq]
    refine ⟨h, fun kept' hkept' => ?_⟩
    cases hkept'
    exact h.signatures text kept hkept
  · refine ⟨h.of_bare hbare (classOf_signature r text), fun kept' hkept' => ?_⟩
    rw [he] at hkept'
    cases hkept'
  · have hsettled' := (h.settled _).1 hsettled
    refine ⟨?_, fun kept' hkept' => ?_⟩
    · have hvetted : Vetted before (r.withSignature text kept) := h.withSignature hsettled'
      exact hvetted.of_bare hbare (classOf_signature r text)
    · rw [hok] at hkept'
      cases hkept'
      exact .inr hsettled'

/-- The same for several signatures. -/
theorem Vetted.signatureList (h : Vetted before r) (texts : List String) :
    Vetted before (r.signatureList texts).2.1 ∧ ∀ ss, (r.signatureList texts).1 = .ok ss → ∀ s ∈ ss,
      (∃ text kept, before.signatures.find? text = some kept ∧ kept.node = s) ∨ before.Settled s := by
  induction texts generalizing r with
  | nil => exact ⟨h, fun ss hss s hs => by cases hss; cases hs⟩
  | cons text texts ih =>
    obtain ⟨hone, hkept⟩ := h.signature text
    rw [Registry.signatureList]
    generalize r.signature text = one at hone hkept ⊢
    obtain ⟨e | kept, after, log⟩ := one
    · exact ⟨hone, fun ss hss => nomatch hss⟩
    · obtain ⟨hrest, hnodes⟩ := ih hone
      dsimp only at hrest hnodes ⊢
      generalize after.signatureList texts = others at hrest hnodes ⊢
      obtain ⟨e | ss, last, more⟩ := others
      · exact ⟨hrest, fun ss hss => nomatch hss⟩
      · refine ⟨hrest, fun ss' hss s hs => ?_⟩
        cases hss
        rcases List.mem_cons.1 hs with rfl | hs
        · exact (hkept kept rfl).imp (fun h => ⟨text, kept, h, rfl⟩) id
        · exact hnodes ss rfl s hs

/-- Why a fault of a signature was not found when the signature was read: it comes from behind an alias, or the
signature was kept from an earlier time. -/
def Overlooked (before after : Registry) (s : Signature) (e : Fault) : Prop :=
  ∃ t ∈ s.types, t.Hides after e ∨
    (∃ text kept, before.signatures.find? text = some kept ∧ kept.node = s) ∧ t.Leads after e

theorem overlooked_of_leads {texts : List String} {ss : List Signature} {s : Signature} {e : Fault}
    (hread : (r.signatureList texts).1 = .ok ss) (hs : s ∈ ss) (ht : t ∈ s.types)
    (hleads : t.Leads (r.signatureList texts).2.1 e) : r.Overlooked (r.signatureList texts).2.1 s e := by
  obtain ⟨hvetted, hnodes⟩ := (Vetted.refl r).signatureList texts
  refine ⟨t, ht, ?_⟩
  rcases hnodes ss hread s hs with hold | hsettled
  · exact .inr ⟨hold, hleads⟩
  · have hsettled := (hvetted.settled s).2 hsettled
    exact .inl (hleads.hides fun name hname => hsettled name (TypeExpr.mem_classNames_signature ht hname))

end Registry

namespace Context

open Judging

variable {ctx : Context} {e : Fault}

/-! ## Judging -/

/-- A fault of a signature has a given cause. -/
def lookupLaw (cause : Fault → Prop) : Law where
  step _ _ := True
  faults e := e.isSignature = true → cause e
  refl _ := trivial
  trans _ _ := trivial
  inspection e he := fun h => by rw [Fault.isSignature_of_isInspection he] at h; cases h

theorem judgeTypeVar_obeys_lookupLaw (cause : Fault → Prop) (name : String) (v : Value) (path : Path) :
    (lookupLaw cause).Obeyed (ctx.judgeTypeVar name v path) := by
  refine Law.obeyed_get.bind fun s => ?_
  split
  · exact Law.obeyed_pure _
  · split
    · exact fun s => ⟨trivial, fun _ he => nomatch he⟩
    · refine (Law.obeyed_pure _).ite (Law.Obeyed.ite ?_ (Law.obeyed_pure _))
      exact fun s => ⟨trivial, fun _ he => nomatch he⟩

theorem leads_of_satisfies {v : Value} {slot : String} {s s' : Scene}
    (hrun : (ctx.satisfies v t slot).run.run s = (.error e, s')) (he : e.isSignature = true) :
    t.Leads ctx.registry e := by
  have hadmits : ∀ u, TypeExpr.Within ctx.registry t u → (lookupLaw (t.Leads ctx.registry)).Admits ctx slot u := by
    intro u hu
    cases u with
    | classRef name args =>
      exact ⟨fun halias e hfails _ => ⟨_, hu, .expansion halias hfails⟩,
        fun halias e hfails _ => ⟨_, hu, .className halias hfails⟩⟩
    | singleton name => exact fun e hfails _ => ⟨_, hu, .singleton hfails⟩
    | typeVar name => exact fun v steps => judgeTypeVar_obeys_lookupLaw _ name v ⟨slot, steps⟩
    | _ => trivial
  exact (satisfies_obeys hadmits v s).2 e (by rw [hrun]) he

theorem leads_of_runChecks {text : String} {checks : List Check} {s s' : Scene}
    (hrun : (ctx.runChecks text checks).run.run s = (.error e, s')) (he : e.isSignature = true) :
    ∃ label v t, Check.slot label v t ∈ checks ∧ t.Leads ctx.registry e := by
  induction checks generalizing s with
  | nil => cases hrun
  | cons check checks ih =>
    cases check with
    | fails d => cases hrun
    | raised r t =>
      rcases run_bind_error hrun with hshown | ⟨shown, mid, -, hrest⟩
      · rw [run_running] at hshown
        split at hshown
        · cases hshown
        · cases hshown
          cases he
      · cases hrest
    | slot label v t =>
      rcases run_bind_error hrun with hhere | ⟨verdict, mid, -, hrest⟩
      · exact ⟨label, v, t, List.mem_cons_self, leads_of_satisfies hhere he⟩
      · have hlater : (ctx.runChecks text checks).run.run mid = (.error e, s') →
            ∃ label' v' t', Check.slot label' v' t' ∈ Check.slot label v t :: checks ∧ t'.Leads ctx.registry e := by
          intro hrest
          obtain ⟨label', v', t', hmem, hleads⟩ := ih hrest
          exact ⟨label', v', t', List.mem_cons_of_mem _ hmem, hleads⟩
        cases verdict with
        | no m => cases hrest
        | yes => exact hlater hrest
        | maybe name => exact hlater hrest

/-- The types that a signature has values judged by are the ones in it. -/
theorem mem_types_of_check {s : Signature} {label : String} {v : Value}
    (h : Check.slot label v t ∈ Check.ofSignature s i) : t ∈ s.types := by
  unfold Signature.types
  cases Check.origin_ofSignature _ h with
  | argument hpair hslot =>
    have hparam := Params.param_of_pair hpair hslot
    exact List.mem_append_left _ (List.mem_append_left _ (List.mem_map_of_mem hparam))
  | blockArgument hb _ hpair hslot =>
    have hparam := Params.param_of_pair hpair hslot
    rw [hb]
    exact List.mem_append_left _ (List.mem_append_right _ (List.mem_append_left _ (List.mem_map_of_mem hparam)))
  | blockResult hb _ _ =>
    rw [hb]
    exact List.mem_append_left _ (List.mem_append_right _ (List.mem_append_right _ (List.mem_singleton_self _)))
  | result _ => exact List.mem_append_right _ (List.mem_singleton_self _)

theorem leads_of_resolveFrom {signatures : List Signature} {index : Nat} {tried : List Attempt} {s s' : Scene}
    (hrun : (ctx.resolveFrom i index tried signatures).run.run s = (.error e, s')) (he : e.isSignature = true) :
    ∃ sig ∈ signatures, ∃ t ∈ sig.types, t.Leads ctx.registry e := by
  induction signatures generalizing index tried s with
  | nil => cases hrun
  | cons sig rest ih =>
    obtain ⟨events, hstep⟩ := ctx.run_resolveFrom_cons i index tried sig s
    rw [hstep] at hrun
    rcases hcheck : (ctx.checkSignature i sig).run.run s with ⟨e' | _ | d, mid⟩ <;> rw [hcheck] at hrun
    · cases hrun
      rcases run_bind_error hcheck with hstart | ⟨_, start, -, hchecks⟩
      · cases hstart
      · obtain ⟨label, v, t, hmem, hleads⟩ := leads_of_runChecks hchecks he
        exact ⟨sig, List.mem_cons_self, t, mem_types_of_check hmem, hleads⟩
    · cases hrun
    · obtain ⟨sig', hsig, hleads⟩ := ih hrun
      exact ⟨sig', List.mem_cons_of_mem _ hsig, hleads⟩

end Context

namespace Session

variable {α β : Type} {s s' : Session} {e : Fault} {m : Action α} {target : Value}

/-! ## Actions of a session -/

theorem run_demand (result : Except Fault α) (s : Session) :
    (demand result).run.run s = (result.mapError .fault, s) := by
  cases result <;> rfl

theorem run_running (run : Program → Run α) (s : Session) :
    (running run).run.run s =
      match (run s.program).run.run s.world with
      | (.ok a, world) => (.ok a, { s with world })
      | (.error r, world) => (.error (.fault (.raised r)), { s with world }) := by
  unfold running
  rw [run_bind, run_get]
  dsimp only
  rcases (run s.program).run.run s.world with ⟨r | a, world⟩ <;> rfl

theorem run_note (records : List LogRecord) (s : Session) :
    (note records).run.run s = (.ok (), { s with log := if s.logging then s.log ++ records else s.log }) := by
  change (Except.ok (), if s.logging then { s with log := s.log ++ records } else s) = _
  split <;> rfl

theorem run_lookUp (ask : Registry → Except Fault α × Registry × List LogRecord) (s : Session) :
    (lookUp ask).run.run s =
      ((ask s.registry).1.mapError .fault,
        { s with
          registry := (ask s.registry).2.1
          log := if s.logging then s.log ++ (ask s.registry).2.2 else s.log }) := by
  change (note (ask s.registry).2.2 >>= fun _ => demand (ask s.registry).1).run.run
    { s with registry := (ask s.registry).2.1 } = _
  rw [run_bind, run_note]
  exact run_demand _ _

/-- What a judgement in a session comes to. -/
theorem run_judging (receiver : Option Value) (bindings : Option Bindings) (judgement : Context → Judging α)
    (s : Session) : ∃ log, (judging receiver bindings judgement).run.run s =
      (.ok (((judgement (s.context receiver)).run.run { world := s.world, bindings }).1,
          ((judgement (s.context receiver)).run.run { world := s.world, bindings }).2.bindings),
        let scene := ((judgement (s.context receiver)).run.run { world := s.world, bindings }).2
        { s with registry := (s.registry.replay scene.events.reverse).1, world := scene.world, log }) := by
  unfold judging
  rw [run_bind, run_get]
  dsimp only
  rcases (judgement (s.context receiver)).run.run { world := s.world, bindings } with ⟨result, scene⟩
  dsimp only
  rcases s.registry.replay scene.events.reverse with ⟨registry, records⟩
  refine ⟨if s.logging then s.log ++ records else s.log, ?_⟩
  change (note records >>= fun _ => pure (result, scene.bindings)).run.run { s with registry, world := scene.world } = _
  rw [run_bind, run_note]
  rfl

/-- The action leaves what names mean and the ledger alone, and does not end in a fault of a signature. -/
def Harmless (m : Action α) : Prop :=
  ∀ s, (m.run.run s).2.registry = s.registry ∧ (m.run.run s).2.ledger = s.ledger ∧
    ∀ e, (m.run.run s).1 = .error (.fault e) → e.isSignature = false

theorem harmless_pure (a : α) : Harmless (pure a : Action α) := fun _ => ⟨rfl, rfl, fun _ he => nomatch he⟩

theorem Harmless.bind {f : α → Action β} (hm : Harmless m) (hf : ∀ a, Harmless (f a)) : Harmless (m >>= f) := by
  intro s
  obtain ⟨hregistry, hledger, hfault⟩ := hm s
  rw [run_bind]
  generalize m.run.run s = first at hregistry hledger hfault ⊢
  obtain ⟨e | a, mid⟩ := first
  · exact ⟨hregistry, hledger, fun e' he => hfault e' (by cases he; rfl)⟩
  · obtain ⟨hregistry', hledger', hfault'⟩ := hf a mid
    exact ⟨hregistry'.trans hregistry, hledger'.trans hledger, hfault'⟩

theorem Harmless.keeps (hm : Harmless m) {result : Except Failure α} (h : m.run.run s = (result, s')) :
    s'.registry = s.registry ∧ s'.ledger = s.ledger := by
  obtain ⟨hregistry, hledger, -⟩ := hm s
  rw [h] at hregistry hledger
  exact ⟨hregistry, hledger⟩

theorem Harmless.isSignature (hm : Harmless m) (h : m.run.run s = (.error (.fault e), s')) : e.isSignature = false :=
  (hm s).2.2 e (by rw [h])

theorem harmless_get : Harmless (get : Action Session) := fun _ => ⟨rfl, rfl, fun _ he => nomatch he⟩

theorem harmless_note (records : List LogRecord) : Harmless (note records) := by
  intro s
  rw [run_note]
  exact ⟨rfl, rfl, fun _ he => nomatch he⟩

theorem harmless_running (run : Program → Run α) : Harmless (running run) := by
  intro s
  rw [run_running]
  rcases (run s.program).run.run s.world with ⟨r | a, world⟩
  · exact ⟨rfl, rfl, fun e he => by cases he; rfl⟩
  · exact ⟨rfl, rfl, fun _ he => nomatch he⟩

theorem harmless_demand {result : Except Fault α} (h : ∀ e, result = .error e → e.isSignature = false) :
    Harmless (demand result) := by
  intro s
  rw [run_demand]
  refine ⟨rfl, rfl, fun e he => ?_⟩
  cases result with
  | error _ =>
    cases he
    exact h _ rfl
  | ok a => cases he

theorem prepared_of_run {method : String} {args : List Value} {keywords : List (String × Value)}
    (h : (prepare target method args keywords).run.run s = (.ok i, s')) :
    Invocation.prepare (s.world.resolve target) method args (Program.keywordsOf keywords) = .ok i ∧ s' = s := by
  unfold prepare at h
  rw [run_bind, run_get] at h
  dsimp only at h
  rw [run_demand] at h
  generalize Invocation.prepare (s.world.resolve target) method args (Program.keywordsOf keywords) = result at h ⊢
  cases result with
  | error e => cases h
  | ok i => cases h; exact ⟨rfl, rfl⟩

theorem harmless_prepare (target : Value) (method : String) (args : List Value) (keywords : List (String × Value)) :
    Harmless (prepare target method args keywords) := by
  refine harmless_get.bind fun s => harmless_demand fun e he => ?_
  unfold Invocation.prepare at he
  dsimp only at he
  split at he
  · cases he
    rfl
  · cases he

/-- Why a call cannot be made has nothing to do with signatures. -/
theorem isSignature_of_perform {p : Program} {w w' : World}
    (h : (i.perform p target).run.run w = (.ok (.error e), w')) : e.isSignature = false := by
  unfold Invocation.perform at h
  split at h
  · cases h
    rfl
  · obtain ⟨found, mid, -, h⟩ := run_bind_ok h
    cases found with
    | none =>
      cases h
      rfl
    | some callee =>
      obtain ⟨_, mid, -, h⟩ := run_bind_ok h
      obtain ⟨outcome, mid, -, h⟩ := run_bind_ok h
      cases h

theorem harmless_perform (target : Value) (i : Invocation) : Harmless (perform target i) := by
  intro s
  unfold perform
  rw [run_bind, run_running]
  rcases hcall : (i.perform s.program target).run.run s.world with ⟨r | e | done, w⟩
  · exact ⟨rfl, rfl, fun e he => by cases he; rfl⟩
  · dsimp only
    rw [run_bind, run_demand]
    exact ⟨rfl, rfl, fun e' he => by cases he; exact isSignature_of_perform hcall⟩
  · dsimp only
    rw [run_bind, run_demand]
    refine (harmless_get.bind fun s => ?_) { s with world := w }
    split
    · split
      · exact (harmless_running _).bind fun text => (harmless_note _).bind fun _ => harmless_pure _
      · exact harmless_pure _
    · exact harmless_pure _

theorem made_of_perform {done : Invocation} (h : (perform target i).run.run s = (.ok done, s')) :
    ∃ made w, (i.perform s.program target).run.run s.world = (.ok (.ok made), w) := by
  obtain ⟨result, mid, hcall, h⟩ := run_bind_ok h
  obtain ⟨made, mid', hmade, -⟩ := run_bind_ok h
  rw [run_running] at hcall
  rcases hrun : (i.perform s.program target).run.run s.world with ⟨r | result', w⟩
  · rw [hrun] at hcall
    cases hcall
  · rw [hrun] at hcall
    cases hcall
    rw [run_demand] at hmade
    cases result with
    | error e => cases hmade
    | ok made => exact ⟨made, w, rfl⟩

/-- Reading the signatures of a check changes nothing of the session but the registry and the log. -/
theorem run_signatures {texts : List String} {result : Except Failure (List Signature)}
    (h : (signatures texts).run.run s = (result, s')) :
    s' = { s with registry := s'.registry, log := s'.log } ∧ ∀ ss, result = .ok ss →
      s'.registry = (s.registry.signatureList texts).2.1 ∧ (s.registry.signatureList texts).1 = .ok ss := by
  unfold signatures at h
  split at h
  · cases h
    exact ⟨rfl, fun _ hss => nomatch hss⟩
  · change (lookUp _).run.run s = _ at h
    rw [run_lookUp] at h
    cases h
    refine ⟨rfl, fun ss hss => ⟨rfl, ?_⟩⟩
    generalize (s.registry.signatureList texts).1 = found at hss ⊢
    cases found with
    | error e => cases hss
    | ok ss' => cases hss; rfl

theorem run_resolve_error {ss : List Signature} {f : Failure} (h : (resolve target i ss).run.run s = (.error f, s')) :
    s'.ledger = s.ledger ∧ ∃ e scene scene', f = .fault e ∧
      (Context.resolve (s.context (some target)) i ss).run.run scene = (.error e, scene') := by
  obtain ⟨log, hjudging⟩ := run_judging (some target) none (fun ctx => ctx.resolve i ss) s
  unfold resolve at h
  rw [run_bind, hjudging] at h
  dsimp only at h
  rw [run_demand] at h
  generalize hrun : (Context.resolve (s.context (some target)) i ss).run.run { world := s.world, bindings := none } =
    judged at h
  obtain ⟨e | r, scene'⟩ := judged
  · cases h
    exact ⟨rfl, e, _, scene', rfl, hrun⟩
  · cases h

/-- What was overlooked when signatures were read, and came up after the call. -/
structure CameLate (s : Session) (texts : List String) (receiver : Value) (method : String) (args : List Value)
    (keywords : List (String × Value)) (e : Fault) : Prop where
  overlooked : ∃ ss mid, (signatures texts).run.run s = (.ok ss, mid) ∧
    ∃ sig ∈ ss, s.registry.Overlooked mid.registry sig e
  called : ∃ i made w,
    Invocation.prepare (s.world.resolve receiver) method args (Program.keywordsOf keywords) = .ok i ∧
    (i.perform s.program receiver).run.run s.world = (.ok (.ok made), w)

variable {texts : List String} {receiver : Value} {method : String} {args : List Value}
  {keywords : List (String × Value)}

theorem run_signature_fault (hrun : (run texts receiver method args keywords).run.run s = (.error (.fault e), s'))
    (he : e.isSignature = true) :
    s'.ledger = s.ledger ∧
      ((signatures texts).run.run s = (.error (.fault e), s') ∧ s'.world = s.world ∨
        CameLate s texts receiver method args keywords e) := by
  rcases run_bind_error hrun with hread | ⟨ss, mid, hread, hrun⟩
  · obtain ⟨hframe, -⟩ := run_signatures hread
    exact ⟨by rw [hframe], .inl ⟨hread, by rw [hframe]⟩⟩
  obtain ⟨hframe, hregistry⟩ := run_signatures hread
  have hprogram : mid.program = s.program := by rw [hframe]
  have hworld : mid.world = s.world := by rw [hframe]
  have hledger : mid.ledger = s.ledger := by rw [hframe]
  obtain ⟨hregistry, hss⟩ := hregistry ss rfl
  have hinnocent : e.isSignature ≠ false := by rw [he]; exact Bool.noConfusion
  rcases run_bind_error hrun with hprepare | ⟨i, prepared, hprepare, hrun⟩
  · exact absurd ((harmless_prepare _ _ _ _).isSignature hprepare) hinnocent
  rcases run_bind_error hrun with hnote | ⟨_, noted, hnote, hrun⟩
  · exact absurd ((harmless_note _).isSignature hnote) hinnocent
  rcases run_bind_error hrun with hperform | ⟨done, after, hperform, hrun⟩
  · exact absurd ((harmless_perform _ _).isSignature hperform) hinnocent
  rcases run_bind_error hrun with hresolve | ⟨_, _, _, hrun⟩
  swap
  · cases hrun
  -- the steps up to the call have changed nothing that the call and the judgement depend on
  obtain ⟨hprepare, rfl⟩ := prepared_of_run hprepare
  rw [run_note] at hnote
  cases hnote
  obtain ⟨made, w, hmade⟩ := made_of_perform hperform
  obtain ⟨hregistry', hledger'⟩ := (harmless_perform _ _).keeps hperform
  obtain ⟨hledger'', e', scene, scene', heq, hresolve⟩ := run_resolve_error hresolve
  cases heq
  obtain ⟨sig, hsig, t, ht, hleads⟩ := Context.leads_of_resolveFrom hresolve he
  refine ⟨hledger''.trans (hledger'.trans hledger), .inr ⟨⟨ss, prepared, hread, sig, hsig, ?_⟩, i, made, w, ?_, ?_⟩⟩
  · rw [hregistry]
    refine Registry.overlooked_of_leads hss hsig ht ?_
    rw [← hregistry]
    exact hregistry' ▸ hleads
  · rw [← hworld]
    exact hprepare
  · rw [← hworld, ← hprogram]
    exact hmade

/-- When the fault of a signature turns up.  A check, of either kind, that ends in one has entered nothing in the
ledger.  Either it is the very fault that reading the signatures ended in, and then that is all that was done: the
program was not run.  Or the signatures could be read, and the fault was overlooked and came after the call. -/
theorem signature_fault_before_call {action : Action Report}
    (haction : action = check texts receiver method args keywords ∨ action = refute texts receiver method args keywords)
    (hrun : action.run.run s = (.error (.fault e), s')) (he : e.isSignature = true) :
    s'.ledger = s.ledger ∧
      ((signatures texts).run.run s = (.error (.fault e), s') ∧ s'.world = s.world ∨
        CameLate s texts receiver method args keywords e) := by
  refine run_signature_fault ?_ he
  rcases haction with rfl | rfl
  all_goals
    rcases run_bind_error hrun with hrun | ⟨⟨i, r⟩, mid, -, hrun⟩
    · exact hrun
    · dsimp only at hrun
      split at hrun
      · cases hrun
      · cases hrun

/-- A program with one function, and a registry with an alias that leads nowhere. -/
def ticking : Session where
  program := { modules := [⟨"app", [("tick", .function [] 0)]⟩], scripts := [[]] }
  registry := Registry.initial.registerAlias "bad" "Missing"

/-- A check that fails on account of the alias, after the function was called. -/
theorem calls_of_ticking :
    let after := (check ["() -> bad"] (.moduleObject "app") "tick" [] []).run.run ticking
    (match after.1 with
      | .error (.fault e) => e.isSignature
      | _ => false) = true ∧ after.2.world.calls = 1 := by
  decide +kernel

theorem signature_fault_before_call_ticking :
    ∃ e s', (check ["() -> bad"] (.moduleObject "app") "tick" [] []).run.run ticking = (.error (.fault e), s') ∧
      e.isSignature = true ∧ s'.ledger = ticking.ledger ∧ s'.world.calls = 1 ∧
      CameLate ticking ["() -> bad"] (.moduleObject "app") "tick" [] [] e := by
  obtain ⟨hfault, hcalls⟩ := calls_of_ticking
  rcases hrun : (check ["() -> bad"] (.moduleObject "app") "tick" [] []).run.run ticking with ⟨f | r, s'⟩
  · rw [hrun] at hfault hcalls
    cases f with
    | fault e =>
      obtain ⟨hledger, ⟨-, hworld⟩ | hlate⟩ := signature_fault_before_call (.inl rfl) hrun hfault
      · rw [hworld] at hcalls
        cases hcalls
      · exact ⟨e, s', rfl, hfault, hledger, hcalls, hlate⟩
    | nonconforming report cause => cases hfault
  · rw [hrun] at hfault
    cases hfault

end Session

end Conformance
