import Mathlib
import Conformance.Proofs.Pairing
import Conformance.Proofs.SlotDiscipline
import Conformance.Proofs.Succession

/-!
# The first slot that fails

What a signature is checked against is a list of aspects of the call (`Invocation.aspects`): the shape of the arguments,
each argument, whether a block was given and called, the shape, the arguments and the result of every call of the block,
and how the call ended.  Each aspect has its own checks (`Check.ofAspect`), which look at nothing else, and the checks of
a signature are those of the aspects, one after the other (`Context.run_checkSignature`).

Main statement: `Context.first_failure_decides`.  The first aspect that fails decides the diagnostic, and a call that has
the same aspects up to that one has the same diagnostic.  A failure of the shape tells nothing of any value.
-/

namespace Conformance

/-! ## Shapes -/

namespace Params

variable {τ α : Type} {label : String}

/-- Have all keywords a parameter that they can go to? -/
def checkNames (p : Params τ) (names : List String) : Except ShapeError Unit :=
  match names.find? fun name => (p.keywordParam? name).isNone with
  | some name => .error (.unknownKeyword name)
  | none => .ok ()

/-- Do the parameters take so many positional arguments, and keywords of these names? -/
def shape (p : Params τ) (count : Nat) (names : List String) : Except ShapeError Unit := do
  p.checkCount count
  p.checkKeywords names
  p.checkNames names

theorem checkNames_of_keywords (p : Params τ) (keywords : List (String × α)) :
    (keywords.mapM p.keywordSlot).map (fun _ => ()) = p.checkNames (keywords.map (·.1)) := by
  induction keywords with
  | nil => rfl
  | cons kv keywords ih =>
    rw [checkNames] at ih ⊢
    rw [List.mapM_cons, keywordSlot, List.map_cons, List.find?_cons]
    cases p.keywordParam? kv.1 with
    | none => rfl
    | some q =>
      rw [Option.isNone_some]
      dsimp only
      rw [← ih]
      cases keywords.mapM p.keywordSlot with
      | error e => rfl
      | ok slots => rfl

/-- Whether arguments can be paired depends on their number and on the names of the keywords. -/
theorem shape_of_pair (p : Params τ) (label : String) (args : List α) (keywords : List (String × α)) :
    (p.pair label args keywords).map (fun _ => ()) = p.shape args.length (keywords.map (·.1)) := by
  unfold pair shape
  rw [← checkNames_of_keywords]
  cases p.checkCount args.length with
  | error e => rfl
  | ok _ =>
    cases p.checkKeywords (keywords.map (·.1)) with
    | error e => rfl
    | ok _ =>
      cases keywords.mapM p.keywordSlot with
      | error e => rfl
      | ok slots => rfl

theorem shape_of_pair_error {p : Params τ} {args : List α} {keywords : List (String × α)} {e : ShapeError}
    (h : p.pair label args keywords = .error e) : p.shape args.length (keywords.map (·.1)) = .error e := by
  rw [← shape_of_pair p label, h]
  rfl

theorem shape_of_pair_ok {p : Params τ} {args : List α} {keywords : List (String × α)} {slots : List (Slot τ α)}
    (h : p.pair label args keywords = .ok slots) : p.shape args.length (keywords.map (·.1)) = .ok () := by
  rw [← shape_of_pair p label, h]
  rfl

theorem fits_of_pair {p : Params τ} {args : List α} {keywords : List (String × α)} {slots : List (Slot τ α)}
    (h : p.pair label args keywords = .ok slots) : p.Fits args.length := by
  by_contra hcount
  obtain ⟨e, he⟩ := pair_eq_error_iff.2 (misfit_iff.2 (.inl hcount) : p.Misfit args.length (keywords.map (·.1)))
  rw [h] at he
  cases he

end Params

/-! ## Aspects of a call -/

/-- Which arguments: those of the call, or those of a numbered call of the block. -/
inductive Site where
  | call
  | blockCall (number : Nat)

/-- Something about a call that a signature is checked against. -/
inductive Aspect where
  /-- How many positional arguments there are, and the names of the keywords. -/
  | shape (site : Site) (count : Nat) (names : List String)
  /-- One of so many positional arguments. -/
  | argument (site : Site) (count index : Nat) (v : Value)
  | keyword (site : Site) (name : String) (v : Value)
  /-- Whether a block was given, and whether it was called. -/
  | block (given called : Bool)
  /-- What a call of the block returned, if it did. -/
  | returned (number : Nat) (v : Option Value)
  /-- What the call returned or raised. -/
  | outcome (result : Option (Except Raised Value))

namespace Aspect

/-- What there is to check about arguments. -/
def ofArguments (site : Site) (args : List Value) (keywords : List (String × Value)) : List Aspect :=
  shape site args.length (keywords.map (·.1)) ::
    (args.zipIdx.map (fun x => argument site args.length x.2 x.1) ++ keywords.map fun kv => keyword site kv.1 kv.2)

/-- What there is to check about a call of the block. -/
def ofBlockCall (c : BlockCall) (number : Nat) : List Aspect :=
  ofArguments (.blockCall number) c.args c.keywords ++ [returned number c.outcome.toOption]

end Aspect

/-- All that a signature is checked against, in order. -/
def Invocation.aspects (i : Invocation) : List Aspect :=
  Aspect.ofArguments .call i.args i.keywords ++
    .block i.hasBlock (!i.blockCalls.isEmpty) ::
      ((if i.hasBlock then i.blockCalls.zipIdx.flatMap fun x => Aspect.ofBlockCall x.1 x.2 else []) ++
        [.outcome i.outcome])

/-! ## Checks of aspects -/

namespace Site

/-- The parameters that the arguments go to. -/
def params? (s : Signature) : Site → Option (Params TypeExpr)
  | call => some s.params
  | blockCall _ => s.block.map (·.params)

/-- What a positional argument is called. -/
def noun : Site → String
  | call => "argument"
  | blockCall _ => "block argument"

/-- Which call an argument belongs to. -/
def suffix : Site → String
  | call => ""
  | blockCall number => " " ++ s!"of block call {number}"

/-- The diagnostic of arguments that do not fit the parameters. -/
def misfit (s : Signature) (p : Params TypeExpr) (e : ShapeError) : Site → Diagnostic
  | call =>
    { kind := .shapeMismatch, message := e.message, signature := some s.label, expected := some p.text }
  | blockCall number =>
    let suffix := s!"of block call {number}"
    { kind := .shapeMismatch, message := s!"{e.message} ({suffix})", signature := some s.label
      slot := some s!"block call {number}", expected := some p.text }

end Site

namespace Check

/-- The check whether a block is there, and was called, as the signature asks. -/
def ofBlockPresence (s : Signature) (given called : Bool) : List Check :=
  let report (kind : DiagnosticKind) (message : String) : Diagnostic :=
    { kind, message, signature := some s.label, slot := some "block", expected := s.block.map (·.text) }
  match s.block with
  | none => if given then [.fails (report .unexpectedBlock "block given but none is declared")] else []
  | some b =>
    if !given then
      if b.required then [.fails (report .missingBlock "required block is not given")] else []
    else if b.required && !called then
      [.fails { report .blockNotCalled "required block was never called" with
        hint := some "a required block must be invoked at least once" }]
    else []

/-- What a signature asks of one aspect of a call. -/
def ofAspect (s : Signature) : Aspect → List Check
  | .shape site count names =>
    match site.params? s with
    | none => []
    | some p =>
      match p.shape count names with
      | .error e => [.fails (site.misfit s p e)]
      | .ok _ => []
  | .argument site count index v =>
    ((site.params? s).bind fun p => (p.positionals count)[index]?).toList.map fun q =>
      .slot (s!"{site.noun} {index}" ++ site.suffix) v q.type
  | .keyword site name v =>
    ((site.params? s).bind fun p => p.keywordParam? name).toList.map fun q =>
      .slot (s!"keyword `{name}`" ++ site.suffix) v q.type
  | .block given called => ofBlockPresence s given called
  | .returned number v =>
    let suffix := s!"of block call {number}"
    (s.block.bind fun b => v.map fun v => .slot s!"block return value {suffix}" v b.result).toList
  | .outcome (some (.ok v)) => [.slot "return value" v s.result]
  | .outcome (some (.error r)) => if s.declaresError then [] else [.raised r s.result]
  | .outcome none => [.slot "return value" .null s.result]

theorem ofAspect_shape (s : Signature) (site : Site) (count : Nat) (names : List String) :
    ofAspect s (.shape site count names) = [] ∨ ∃ d, ofAspect s (.shape site count names) = [.fails d] := by
  rw [ofAspect]
  cases site.params? s with
  | none => exact .inl rfl
  | some p =>
    dsimp only
    cases p.shape count names with
    | error e => exact .inr ⟨_, rfl⟩
    | ok _ => exact .inl rfl

/-- What a signature asks of aspects of a call, in order. -/
def ofAspects (s : Signature) (aspects : List Aspect) : List Check := aspects.flatMap (ofAspect s)

/-! ## Checks that come to the same -/

/-- To go through the checks comes to the same. -/
def Alike (cs ds : List Check) : Prop :=
  ∀ (ctx : Context) (text : String) (s : Scene), (ctx.runChecks text cs).run.run s = (ctx.runChecks text ds).run.run s

theorem Alike.refl (cs : List Check) : Alike cs cs := fun _ _ _ => rfl

theorem Alike.append {cs ds cs' ds' : List Check} (h : Alike cs ds) (h' : Alike cs' ds') :
    Alike (cs ++ cs') (ds ++ ds') := by
  intro ctx text s
  rw [Context.run_runChecks_append, Context.run_runChecks_append, h ctx text s]
  rcases (ctx.runChecks text ds).run.run s with ⟨e | _ | d, s'⟩
  · rfl
  · exact h' ctx text s'
  · rfl

/-- Nothing is checked after a failure. -/
theorem alike_fails (d : Diagnostic) (cs ds : List Check) : Alike (.fails d :: cs) (.fails d :: ds) := fun _ _ _ => rfl

theorem alike_flatMap {α : Type} {xs : List α} {f g : α → List Check} (h : ∀ x ∈ xs, Alike (f x) (g x)) :
    Alike (xs.flatMap f) (xs.flatMap g) := by
  induction xs with
  | nil => exact .refl []
  | cons x xs ih =>
    rw [List.flatMap_cons, List.flatMap_cons]
    exact (h x List.mem_cons_self).append (ih fun y hy => h y (List.mem_cons_of_mem _ hy))

/-! ## Arguments -/

/-- Positional arguments go to the parameters at their positions. -/
theorem flatMap_zipIdx {α β γ : Type} (f : α → Nat → β → γ) (before qs : List β) (xs : List α)
    (hlength : xs.length = qs.length) :
    ((xs.zip qs).zipIdx before.length).map (fun x => f x.1.1 x.2 x.1.2) =
      (xs.zipIdx before.length).flatMap fun x => ((before ++ qs)[x.2]?).toList.map (f x.1 x.2) := by
  induction xs generalizing before qs with
  | nil => rfl
  | cons x xs ih =>
    cases qs with
    | nil => cases hlength
    | cons q qs =>
      have hrest := ih (before ++ [q]) qs (Nat.succ.inj hlength)
      rw [List.length_append, List.append_assoc] at hrest
      rw [List.zip_cons_cons, List.zipIdx_cons, List.zipIdx_cons, List.map_cons, List.flatMap_cons,
        List.getElem?_append_right (Nat.le_refl _), Nat.sub_self]
      exact congrArg (f x before.length q :: ·) hrest

theorem ofSlots_named {p : Params TypeExpr} {keywords : List (String × Value)}
    {named : List (Conformance.Slot TypeExpr Value)} (h : keywords.mapM p.keywordSlot = .ok named) (suffix : String) :
    ofSlots suffix named = keywords.flatMap fun kv => (p.keywordParam? kv.1).toList.map fun q =>
      .slot (s!"keyword `{kv.1}`" ++ suffix) kv.2 q.type := by
  have hslots := Params.slots_of_keywords h
  clear h
  induction hslots with
  | nil => rfl
  | cons hslot _ ih =>
    obtain ⟨hparam, hlabel, hvalue⟩ := Params.keywordSlot_ok hslot
    rw [List.flatMap_cons, hparam, ← ih, ← hlabel, ← hvalue]
    rfl

section Arguments

variable {s : Signature} {site : Site} {p : Params TypeExpr} {args : List Value} {keywords : List (String × Value)}

theorem ofAspects_misfit (hp : site.params? s = some p) {e : ShapeError}
    (h : p.pair site.noun args keywords = .error e) :
    ∃ rest, ofAspects s (Aspect.ofArguments site args keywords) = .fails (site.misfit s p e) :: rest := by
  have hshape : ofAspect s (.shape site args.length (keywords.map (·.1))) = [.fails (site.misfit s p e)] := by
    rw [ofAspect, hp]
    dsimp only
    rw [Params.shape_of_pair_error h]
  exact ⟨_, congrArg (· ++ _) hshape⟩

theorem ofAspects_ofArguments (hp : site.params? s = some p) {slots : List (Conformance.Slot TypeExpr Value)}
    (h : p.pair site.noun args keywords = .ok slots) :
    ofAspects s (Aspect.ofArguments site args keywords) = ofSlots site.suffix slots := by
  have hshape : ofAspect s (.shape site args.length (keywords.map (·.1))) = [] := by
    rw [ofAspect, hp]
    dsimp only
    rw [Params.shape_of_pair_ok h]
  obtain ⟨named, hnamed, rfl⟩ := Params.pair_ok h
  have hlength := (Params.length_positionals (Params.fits_of_pair h)).symm
  have hpositional := flatMap_zipIdx (fun (v : Value) (index : Nat) (q : Param TypeExpr) =>
    Check.slot (s!"{site.noun} {index}" ++ site.suffix) v q.type) [] (p.positionals args.length) args hlength
  rw [ofAspects, Aspect.ofArguments, List.flatMap_cons, hshape, List.nil_append, List.flatMap_append, List.flatMap_map,
    List.flatMap_map, ofSlots, List.map_append, List.map_map]
  refine congr (congrArg _ ?_) ?_
  · simp only [ofAspect, hp, Option.bind_some]
    exact hpositional.symm
  · simp only [ofAspect, hp, Option.bind_some]
    exact (ofSlots_named hnamed site.suffix).symm

theorem alike_ofArguments (s : Signature) (i : Invocation) :
    Alike (ofArguments s.label s i) (ofAspects s (Aspect.ofArguments .call i.args i.keywords)) := by
  have hp : Site.call.params? s = some s.params := rfl
  unfold ofArguments
  cases hpair : s.params.pair "argument" i.args i.keywords with
  | error e =>
    obtain ⟨rest, hrest⟩ := ofAspects_misfit hp hpair
    rw [hrest]
    exact alike_fails _ _ _
  | ok slots =>
    rw [ofAspects_ofArguments hp hpair]
    exact .refl _

end Arguments

/-! ## The block -/

theorem alike_ofBlockCall {s : Signature} {b : Block TypeExpr} (hb : s.block = some b) (number : Nat) (c : BlockCall) :
    Alike (ofBlockCall s.label b number c) (ofAspects s (Aspect.ofBlockCall c number)) := by
  have hp : (Site.blockCall number).params? s = some b.params := by rw [Site.params?, hb]; rfl
  rw [Aspect.ofBlockCall, ofAspects, List.flatMap_append]
  unfold ofBlockCall
  dsimp only
  cases hpair : b.params.pair "block argument" c.args c.keywords with
  | error e =>
    obtain ⟨rest, hrest⟩ := ofAspects_misfit hp hpair
    rw [ofAspects] at hrest
    rw [hrest]
    exact alike_fails _ _ _
  | ok slots =>
    have harguments := ofAspects_ofArguments hp hpair
    rw [ofAspects] at harguments
    rw [harguments]
    refine (Alike.refl _).append ?_
    rw [List.flatMap_singleton, ofAspect, hb]
    cases c.outcome with
    | error r => exact .refl _
    | ok v => exact .refl _

theorem alike_ofBlock (s : Signature) (i : Invocation) :
    Alike (ofBlock s.label s i) (ofAspects s (.block i.hasBlock (!i.blockCalls.isEmpty) ::
      if i.hasBlock then i.blockCalls.zipIdx.flatMap fun x => Aspect.ofBlockCall x.1 x.2 else [])) := by
  rw [ofAspects, List.flatMap_cons, ofAspect]
  unfold ofBlock ofBlockPresence
  cases hb : s.block with
  | none =>
    cases i.hasBlock with
    | true => exact alike_fails _ _ _
    | false => exact .refl _
  | some b =>
    cases i.hasBlock with
    | false =>
      simp only [Bool.not_false, if_true, Bool.false_eq_true, if_false]
      cases b.required with
      | true => exact alike_fails _ _ _
      | false => exact .refl _
    | true =>
      simp only [Bool.not_true, Bool.false_eq_true, if_false, if_true, Bool.not_not]
      cases b.required && i.blockCalls.isEmpty with
      | true => exact alike_fails _ _ _
      | false =>
        simp only [Bool.false_eq_true, if_false, List.nil_append, List.flatMap_assoc]
        exact alike_flatMap fun x _ => alike_ofBlockCall hb x.2 x.1

theorem ofOutcome_eq (s : Signature) (i : Invocation) : ofOutcome s i = ofAspects s [.outcome i.outcome] := by
  unfold ofOutcome Invocation.error? Invocation.result
  rw [ofAspects, List.flatMap_singleton]
  cases i.outcome with
  | none => rfl
  | some result =>
    cases result with
    | error r => rfl
    | ok v => rfl

/-- The checks of a signature are those of the aspects of the call. -/
theorem alike_ofSignature (s : Signature) (i : Invocation) : Alike (ofSignature s i) (ofAspects s i.aspects) := by
  have hsplit : ofAspects s i.aspects = ofAspects s (Aspect.ofArguments .call i.args i.keywords) ++
      ofAspects s (.block i.hasBlock (!i.blockCalls.isEmpty) ::
        if i.hasBlock then i.blockCalls.zipIdx.flatMap fun x => Aspect.ofBlockCall x.1 x.2 else []) ++
      ofAspects s [.outcome i.outcome] := by
    rw [Invocation.aspects]
    simp only [ofAspects, List.flatMap_append, List.flatMap_cons, List.append_assoc]
  rw [hsplit]
  unfold ofSignature
  rw [← ofOutcome_eq]
  exact ((alike_ofArguments s i).append (alike_ofBlock s i)).append (.refl _)

end Check

/-! ## Where a check ends -/

namespace Context

open Judging

variable {ctx : Context} {s : Signature} {i j : Invocation} {scene start : Scene} {n : Nat} {a : Aspect} {d : Diagnostic}

/-- Goes through aspects of a call, up to the first that fails. -/
def runAspects (ctx : Context) (s : Signature) (aspects : List Aspect) : Judging (Option Diagnostic) :=
  ctx.runChecks s.label (Check.ofAspects s aspects)

theorem run_runAspects_append (ctx : Context) (s : Signature) (before after : List Aspect) (start : Scene) :
    (ctx.runAspects s (before ++ after)).run.run start =
      match (ctx.runAspects s before).run.run start with
      | (.ok none, mid) => (ctx.runAspects s after).run.run mid
      | stopped => stopped := by
  rw [runAspects, Check.ofAspects, List.flatMap_append]
  exact run_runChecks_append _ _ _ _

/-- A signature is checked aspect by aspect, from no bindings. -/
theorem run_checkSignature (ctx : Context) (i : Invocation) (s : Signature) (scene : Scene) :
    (ctx.checkSignature i s).run.run scene =
      (ctx.runAspects s i.aspects).run.run { scene with bindings := some .empty } :=
  Check.alike_ofSignature s i ctx s.label { scene with bindings := some .empty }

/-- The first `n` aspects of the call pass, and the next one fails. -/
structure FailsAt (ctx : Context) (i : Invocation) (s : Signature) (scene : Scene) (n : Nat) (a : Aspect)
    (d : Diagnostic) : Prop where
  aspect : i.aspects[n]? = some a
  first : ∃ mid after,
    (ctx.runAspects s (i.aspects.take n)).run.run { scene with bindings := some .empty } = (.ok none, mid) ∧
    (ctx.runAspects s [a]).run.run mid = (.ok (some d), after)

/-- If a check of aspects fails, there is a first of them that does. -/
theorem exists_first_failure {aspects : List Aspect} {after : Scene}
    (h : (ctx.runAspects s aspects).run.run start = (.ok (some d), after)) :
    ∃ n a, aspects[n]? = some a ∧ ∃ mid, (ctx.runAspects s (aspects.take n)).run.run start = (.ok none, mid) ∧
      (ctx.runAspects s [a]).run.run mid = (.ok (some d), after) := by
  induction aspects generalizing start with
  | nil => cases h
  | cons first aspects ih =>
    have hsplit := run_runAspects_append ctx s [first] aspects start
    rw [List.singleton_append, h] at hsplit
    generalize hfirst : (ctx.runAspects s [first]).run.run start = run at hsplit
    obtain ⟨result, mid⟩ := run
    rcases result with e | _ | d'
    · cases hsplit
    · obtain ⟨n, a, ha, last, hbefore, hfails⟩ := ih hsplit.symm
      refine ⟨n + 1, a, ha, last, ?_, hfails⟩
      have htake := run_runAspects_append ctx s [first] (aspects.take n) start
      rw [hfirst] at htake
      exact htake.trans hbefore
    · cases hsplit
      exact ⟨0, first, rfl, start, rfl, hfirst⟩

/-- A call with the same aspects up to the one that fails has the same diagnostic. -/
theorem FailsAt.run_of_take (h : ctx.FailsAt i s scene n a d)
    (hagree : j.aspects.take (n + 1) = i.aspects.take (n + 1)) :
    ((ctx.checkSignature j s).run.run scene).1 = .ok (some d) := by
  obtain ⟨ha, mid, after, hbefore, hfails⟩ := h
  have hsplit : j.aspects = i.aspects.take n ++ [a] ++ j.aspects.drop (n + 1) := by
    have htake : i.aspects.take (n + 1) = i.aspects.take n ++ [a] := by rw [List.take_add_one, ha, Option.toList_some]
    rw [← htake, ← hagree, List.take_append_drop]
  rw [run_checkSignature, hsplit, run_runAspects_append, run_runAspects_append, hbefore]
  dsimp only
  rw [hfails]

/-- Of a shape that does not fit, the signature tells the diagnostic. -/
theorem FailsAt.shape {site : Site} {count : Nat} {names : List String}
    (h : ctx.FailsAt i s scene n (.shape site count names) d) :
    Check.ofAspect s (.shape site count names) = [.fails d] := by
  obtain ⟨-, mid, after, -, hfails⟩ := h
  rw [runAspects, Check.ofAspects, List.flatMap_singleton] at hfails
  obtain hnone | ⟨d', hd'⟩ := Check.ofAspect_shape s site count names
  · rw [hnone] at hfails
    cases hfails
  · rw [hd'] at hfails ⊢
    cases hfails
    rfl

/-- The shape of the call is looked at before anything else. -/
theorem FailsAt.run_of_shape (h : ctx.FailsAt i s scene 0 a d) (hcount : j.args.length = i.args.length)
    (hnames : j.keywords.map (·.1) = i.keywords.map (·.1)) (ctx' : Context) (scene' : Scene) :
    ((ctx'.checkSignature j s).run.run scene').1 = .ok (some d) := by
  obtain rfl : a = .shape .call i.args.length (i.keywords.map (·.1)) := (Option.some.inj h.aspect).symm
  have hfails : ∃ rest, Check.ofAspects s j.aspects = .fails d :: rest := by
    have hshape := h.shape
    rw [← hcount, ← hnames] at hshape
    exact ⟨_, congrArg (· ++ _) hshape⟩
  obtain ⟨rest, hrest⟩ := hfails
  rw [run_checkSignature, runAspects, hrest]
  rfl

/-- **The first failure decides.**  If a call fails the check of a signature, there is a first aspect of it that fails.
Any call that has the same aspects up to that one, and is checked in the same state of the program, has the same
diagnostic, whatever comes after it.  If the aspect is the shape of some arguments, the diagnostic follows from the
signature, the number of arguments and the names of the keywords, and if it is that of the call itself, all calls of this
shape have it, whatever their values. -/
theorem first_failure_decides (ctx : Context) (i : Invocation) (s : Signature) (scene : Scene) (d : Diagnostic) :
    (((ctx.checkSignature i s).run.run scene).1 = .ok (some d) ↔ ∃ n a, ctx.FailsAt i s scene n a d) ∧
    ∀ n a, ctx.FailsAt i s scene n a d →
      (∀ j scene', scene'.world = scene.world → j.aspects.take (n + 1) = i.aspects.take (n + 1) →
        ((ctx.checkSignature j s).run.run scene').1 = .ok (some d)) ∧
      (∀ site count names, a = .shape site count names → Check.ofAspect s a = [.fails d]) ∧
      (n = 0 → ∀ (ctx' : Context) (j : Invocation) (scene' : Scene), j.args.length = i.args.length →
        j.keywords.map (·.1) = i.keywords.map (·.1) →
        ((ctx'.checkSignature j s).run.run scene').1 = .ok (some d)) := by
  refine ⟨⟨fun h => ?_, fun ⟨n, a, h⟩ => h.run_of_take rfl⟩, fun n a h => ⟨fun j scene' hworld hagree => ?_, ?_, ?_⟩⟩
  · rw [run_checkSignature] at h
    obtain ⟨n, a, ha, mid, hbefore, hfails⟩ := exists_first_failure (Prod.ext h rfl)
    exact ⟨n, a, ha, mid, _, hbefore, hfails⟩
  · have hsame := selfContained_checkSignature ctx j s scene' scene hworld
    exact hsame.result.trans (h.run_of_take hagree)
  · rintro site count names rfl
    exact h.shape
  · rintro rfl ctx' j scene' hcount hnames
    exact h.run_of_shape hcount hnames ctx' scene'

/-- A call whose keyword is not like its argument. -/
def oddCall : Invocation := { echoCall with keywords := [("like", .str "one")] }

def oddDiagnostic : Diagnostic where
  kind := .bindingConflict
  message := "keyword `like`: type variable T is bound to int by argument 0"
  signature := some echoSignature.label
  slot := some "keyword `like`"
  expected := some "T"
  actual := some "str"

theorem oddCall_failsAt :
    ({} : Context).FailsAt oddCall echoSignature {} 2 (.keyword .call "like" (.str "one")) oddDiagnostic := by
  have hok {r : Except Fault (Option Diagnostic)} {x : Option Diagnostic} (h : r.toOption = some x) : r = .ok x := by
    cases r with
    | error e => cases h
    | ok y => exact congrArg _ (Option.some.inj h)
  exact ⟨rfl, _, _, Prod.ext (hok (by decide +kernel)) rfl, Prod.ext (hok (by decide +kernel)) rfl⟩

/-- However the call ends, and whatever it does with a block, the diagnostic is that of the keyword. -/
theorem first_failure_decides_odd :
    ({} : Context).FailsAt oddCall echoSignature {} 2 (.keyword .call "like" (.str "one")) oddDiagnostic ∧
    ∀ block blockCalls outcome, ((({} : Context).checkSignature { oddCall with block, blockCalls, outcome }
      echoSignature).run.run {}).1 = .ok (some oddDiagnostic) := by
  obtain ⟨-, hdecides⟩ := first_failure_decides {} oddCall echoSignature {} oddDiagnostic
  obtain ⟨hagree, -, -⟩ := hdecides 2 _ oddCall_failsAt
  exact ⟨oddCall_failsAt, fun block blockCalls outcome => hagree _ {} rfl rfl⟩

end Context

end Conformance
