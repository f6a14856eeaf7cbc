import Mathlib
import Conformance.Proofs.Recheck
import Conformance.Proofs.Simulation
import Conformance.Proofs.Termination

/-!
# Judging without bindings

Without bindings a type variable accepts every value, and so it does in the first slot of a check, where nobody else has
bound it.  Hence a built-in value is judged in the same way without bindings and with fresh ones (`Outcome.Alike`): it is
accepted by both, rejected by both for the same reason, or both end in the same fault; and a rejection is never for a
conflict.  Bindings of other slots can only make a judgement stricter (`Outcome.Covers`), and so can a receiver.

Main statement: `Session.unbound_agrees`.
-/

namespace Conformance

open Judging Run

namespace Outcome

/-- The value is accepted. -/
def Accepted (r : Outcome) : Prop := ∃ verdict, r = .ok verdict ∧ verdict.isOk = true

/-- The value is rejected. -/
def Rejected (r : Outcome) : Prop := ∃ m, r = .ok (.no m)

/-- Both accept the value, or both reject it in the same way and not for a conflict, or both end in the same fault. -/
inductive Alike : Outcome → Outcome → Prop
  | accepted {a a' : Verdict} (h : a.isOk = true) (h' : a'.isOk = true) : Alike (.ok a) (.ok a')
  | rejected {m : Mismatch} (h : m.conflict = none) : Alike (.ok (.no m)) (.ok (.no m))
  | fault (e : Fault) : Alike (.error e) (.error e)

/-- What the first accepts the second does not reject. -/
def Covers (r r' : Outcome) : Prop := r.Accepted → ¬ r'.Rejected

theorem accepted_iff {r : Outcome} : r.Accepted ↔ r.toOption.map (·.isOk) = some true := by
  cases r with
  | error e => simp [Except.toOption, Accepted]
  | ok verdict => simp [Except.toOption, Accepted]

theorem not_accepted_no (m : Mismatch) : ¬ Accepted (.ok (.no m)) := by
  rintro ⟨verdict, hverdict, hok⟩
  cases hverdict
  cases hok

theorem not_accepted_error (e : Fault) : ¬ Accepted (.error e) := by
  rintro ⟨verdict, hverdict, -⟩
  cases hverdict

theorem not_rejected_error (e : Fault) : ¬ Rejected (.error e) := by
  rintro ⟨m, hm⟩
  cases hm

theorem not_rejected_of_isOk {a : Verdict} (h : a.isOk = true) : ¬ Rejected (.ok a) := by
  rintro ⟨m, hm⟩
  cases hm
  cases h

theorem Alike.accepted_left {r : Outcome} {a : Verdict} (h : Alike r (.ok a)) (ha : a.isOk = true) : r.Accepted := by
  cases h with
  | accepted h _ => exact ⟨_, rfl, h⟩
  | rejected => cases ha

/-! ## Ways to compare -/

theorem firstOf_alike {rejected : List Mismatch → Mismatch}
    (hrejected : ∀ failures, (∀ m ∈ failures, m.conflict = none) → (rejected failures).conflict = none)
    {rs rs' : List Outcome} (h : List.Forall₂ Alike rs rs') (failures : List Mismatch)
    (hfailures : ∀ m ∈ failures, m.conflict = none) :
    Alike (firstOf rejected failures rs) (firstOf rejected failures rs') := by
  induction h generalizing failures with
  | nil => exact .rejected (hrejected failures hfailures)
  | cons hr _ ih =>
    cases hr with
    | @accepted a a' ha ha' =>
      cases a with
      | no => cases ha
      | yes | maybe =>
        cases a' with
        | no => cases ha'
        | yes | maybe => exact .accepted rfl rfl
    | @rejected m hm =>
      refine ih (failures ++ [m]) fun f hf => ?_
      rcases List.mem_append.1 hf with hf | hf
      · exact hfailures f hf
      · rwa [List.mem_singleton.1 hf]
    | fault e => exact .fault e

theorem firstOf_covers (rejected rejected' : List Mismatch → Mismatch) {rs rs' : List Outcome}
    (h : List.Forall₂ Covers rs rs') (failures failures' : List Mismatch) :
    Covers (firstOf rejected failures rs) (firstOf rejected' failures' rs') := by
  induction h generalizing failures failures' with
  | nil => exact fun h => absurd h (not_accepted_no _)
  | @cons r r' rs rs' hr _ ih =>
    intro haccepted
    cases r' with
    | error e => exact not_rejected_error e
    | ok a' =>
      cases a' with
      | yes | maybe => exact not_rejected_of_isOk rfl
      | no m' =>
        -- the second goes on, and so does the first
        cases r with
        | error e => exact absurd haccepted (not_accepted_error e)
        | ok a =>
          cases a with
          | yes | maybe => exact absurd ⟨m', rfl⟩ (hr ⟨_, rfl, rfl⟩)
          | no m => exact ih _ _ haccepted

theorem compatible_alike (slot : String) : Compatible slot slot Alike where
  accept := .accepted rfl rfl
  reject _ _ _ _ := .rejected rfl
  fault := .fault
  andThen {r r' q q'} hr hq := by
    cases hr with
    | accepted h h' =>
      simp only [andThen, h, h', if_true]
      exact hq
    | rejected h => exact .rejected h
    | fault e => exact .fault e
  union ts v steps {rs rs'} h := by
    refine firstOf_alike (fun failures hfailures => ?_) h [] (by simp)
    exact List.findSome?_eq_none_iff.2 hfailures

theorem compatible_covers (slot slot' : String) : Compatible slot slot' Covers where
  accept _ := not_rejected_of_isOk rfl
  reject _ _ _ _ h := absurd h (not_accepted_no _)
  fault e h := absurd h (not_accepted_error e)
  andThen {r r' q q'} hr hq := by
    rintro haccepted
    -- the first accepts both, so that the second rejects neither
    cases r with
    | error e => exact absurd haccepted (not_accepted_error e)
    | ok a =>
      by_cases ha : a.isOk = true
      · simp only [andThen, ha, if_true] at haccepted
        have hr' := hr ⟨a, rfl, ha⟩
        cases r' with
        | error e => exact not_rejected_error e
        | ok a' =>
          by_cases ha' : a'.isOk = true
          · simp only [andThen, ha', if_true]
            exact hq haccepted
          · simpa only [andThen, if_neg ha'] using hr'
      · simp only [andThen, if_neg ha] at haccepted
        obtain ⟨_, hsame, hok⟩ := haccepted
        cases hsame
        exact absurd hok ha
  union _ _ _ {_ _} h := firstOf_covers _ _ h [] []

end Outcome

namespace Context

variable {ctx : Context} {w : World} {cells : Nat → Prop} {v : Value} {r : Option Value}

/-! ## Where the judgements may differ -/

/-- The first of the two may do as it likes where the second takes note of something and accepts. -/
theorem paired_of_accepting {α : Type} {I I' : Option Bindings → Prop} {m : Judging Verdict} {n : Judging α}
    {E : Fault → Prop} {Q : α → Prop} (hm : Keeps w I m) (hn : Inspects w E n Q) :
    Paired w I I' Outcome.Covers m (n >>= fun _ => pure .yes) := by
  obtain ⟨result, hgives, -⟩ := hn
  refine ⟨hm, hgives.keeps_bind fun _ _ => keeps_pure _, fun s s' _ _ hs' _ _ => ?_⟩
  obtain ⟨events, hrun⟩ := hgives s' hs'
  rw [run_bind, hrun]
  cases result with
  | error e => exact Outcome.not_rejected_error e
  | ok _ => exact Outcome.not_rejected_of_isOk rfl

theorem run_judgeTypeVar_open {name : String} {path : Path} {s : Scene} (hb : s.bindings = none) :
    (ctx.judgeTypeVar name v path).run.run s = (.ok (.maybe name), s) := by
  unfold judgeTypeVar
  rw [run_bind, run_get]
  dsimp only
  rw [hb]
  rfl

theorem keeps_judgeTypeVar_open (name : String) (path : Path) :
    Keeps w (· = none) (ctx.judgeTypeVar name v path) := by
  intro s hs hb
  rw [run_judgeTypeVar_open hb]
  exact ⟨hs, hb⟩

theorem world_judgeTypeVar (name : String) (path : Path) (s : Scene) :
    ((ctx.judgeTypeVar name v path).run.run s).2.world = s.world := by
  unfold judgeTypeVar
  rw [run_bind, run_get]
  dsimp only
  split
  · rfl
  split
  · rfl
  split
  · rfl
  split
  · rfl
  · rfl

/-- The bindings are of no slot but this one. -/
def OwnBindings (slot : String) (b : Option Bindings) : Prop := ∃ c, b = some c ∧ Bindings.empty.Agrees slot c

theorem keeps_judgeTypeVar_own (slot name : String) (steps : List Selector) :
    Keeps w (OwnBindings slot) (ctx.judgeTypeVar name v ⟨slot, steps⟩) := by
  rintro s hs ⟨b, hb, hown⟩
  have hgrows : (growthLaw (· = slot) fun _ => True).Obeyed (ctx.judgeTypeVar name v ⟨slot, steps⟩) :=
    judgeTypeVar_grows (by rfl) trivial v
  obtain ⟨b', hb', hgrows⟩ := hgrows.exists_grows hb
  exact ⟨(world_judgeTypeVar name _ s).trans hs, b', hb', hown.trans hgrows.agrees⟩

/-- A type variable accepts every value in the first slot that it is met in, as it does without bindings. -/
theorem alike_judgeTypeVar (slot name : String) (v : Value) (steps : List Selector) :
    Paired w (OwnBindings slot) (· = none) Outcome.Alike (ctx.judgeTypeVar name v ⟨slot, steps⟩)
      (ctx.judgeTypeVar name v ⟨slot, steps⟩) := by
  refine ⟨keeps_judgeTypeVar_own slot name steps, keeps_judgeTypeVar_open name _, ?_⟩
  rintro s s' - ⟨b, hb, hown⟩ - hb'
  have hslot : ∀ binding, b.get? name = some binding → binding.origin = (Path.mk slot steps).slot := by
    intro binding hbound
    by_contra horigin
    cases (hown name binding horigin).2 hbound
  obtain ⟨_, _, hrun, -⟩ := run_judgeTypeVar_own ctx v hb hslot
  rw [hrun, run_judgeTypeVar_open hb']
  exact .accepted rfl rfl

theorem covers_judgeTypeVar {ctx' : Context} (slot slot' name : String) (v : Value) (steps : List Selector) :
    Paired w (·.isSome = true) (· = none) Outcome.Covers (ctx.judgeTypeVar name v ⟨slot, steps⟩)
      (ctx'.judgeTypeVar name v ⟨slot', steps⟩) := by
  refine ⟨fun s hs hb => ?_, keeps_judgeTypeVar_open name _, fun _ s' _ _ _ hb' _ => ?_⟩
  · obtain ⟨b, hb⟩ := Option.isSome_iff_exists.1 hb
    have hgrows : (growthLaw (· = slot) fun _ => True).Obeyed (ctx.judgeTypeVar name v ⟨slot, steps⟩) :=
      judgeTypeVar_grows (by rfl) trivial v
    obtain ⟨b', hb', -⟩ := hgrows.exists_grows hb
    exact ⟨(world_judgeTypeVar name _ s).trans hs, by rw [hb']; rfl⟩
  · rw [run_judgeTypeVar_open hb']
    exact Outcome.not_rejected_of_isOk rfl

section BuiltIn

variable (hp : ctx.program.Separate) (hw : w.BuiltIn cells)
include hp hw

/-- Without a receiver, a base type rejects nothing that it accepts with one. -/
theorem covers_judgeBase (hv : v.BuiltIn cells) (slot slot' : String) (hr : r = ctx.receiver ∨ r = none) (kind : Base)
    (steps : List Selector) : Paired w (·.isSome = true) (· = none) Outcome.Covers (ctx.judgeBase kind v ⟨slot, steps⟩)
      ((ctx.variant ctx.sampleSize r).judgeBase kind v ⟨slot', steps⟩) := by
  have hc := Outcome.compatible_covers slot slot'
  rcases hr with rfl | rfl
  · exact hc.judgeBase hp hw hv steps kind
  cases kind with
  | top | void | boolish => exact hc.accepted
  | bot => exact hc.rejected steps v _ _
  | bool | nil => exact hc.decided steps _ v _ _
  | selfType | instanceType | classType =>
    have hsame (kind : Base) : Paired w (·.isSome = true) (· = none) Outcome.Covers
        (ctx.judgeBase kind v ⟨slot, steps⟩) (ctx.judgeBase kind v ⟨slot', steps⟩) := hc.judgeBase hp hw hv steps kind
    have hp' : (ctx.variant ctx.sampleSize none).program.Separate := hp
    exact paired_of_accepting (hsame _).left (inspects_note (E := fun _ => True) hp' hw hv .debug .classifier _
      fun _ _ => trivial)

theorem comparison_alike (slot : String) :
    Comparison ctx (ctx.variant ctx.sampleSize ctx.receiver) w (·.BuiltIn cells) slot slot (OwnBindings slot) (· = none)
      Outcome.Alike where
  toCompatible := Outcome.compatible_alike slot
  base kind _ steps hv := (Outcome.compatible_alike slot).judgeBase hp hw hv steps kind
  typeVar name v steps := alike_judgeTypeVar slot name v steps
  sampled hv hcollection hitems hlook :=
    (Outcome.compatible_alike slot).sampled (hp.yields hv hcollection hitems) hlook
      (Value.isCell_of_isCollection hcollection)

theorem comparison_covers (slot slot' : String) (hr : r = ctx.receiver ∨ r = none) :
    Comparison ctx (ctx.variant ctx.sampleSize r) w (·.BuiltIn cells) slot slot' (·.isSome = true) (· = none)
      Outcome.Covers where
  toCompatible := Outcome.compatible_covers slot slot'
  base kind _ steps hv := covers_judgeBase hp hw hv slot slot' hr kind steps
  typeVar name v steps := covers_judgeTypeVar slot slot' name v steps
  sampled hv hcollection hitems hlook :=
    (Outcome.compatible_covers slot slot').sampled (hp.yields hv hcollection hitems) hlook
      (Value.isCell_of_isCollection hcollection)

end BuiltIn

/-! ## What the judgements come to -/

/-- What judging a value in a slot comes to, from a state of the program and from bindings, if there are any. -/
def outcome (ctx : Context) (v : Value) (t : TypeExpr) (slot : String) (w : World) (b : Option Bindings) : Outcome :=
  ((ctx.satisfies v t slot).run.run { world := w, bindings := b }).1

/-- The value is finite and can be shown, and the registry, the type and the settings are such that judging it comes to an
end. -/
structure Bounded (ctx : Context) (w : World) (v : Value) (t : TypeExpr) : Prop where
  doubles : ∀ d ∈ ctx.doubles, ∃ c, d = .ofClass c
  guarded : ctx.registry.Guarded
  names : ∀ e, ¬ t.Leads ctx.registry e
  sampleSize : Sampling.IsProper ctx.sampleSize
  depth : ∃ n, v.Finite w n ∧ ctx.registry.recursionBound t n ≤ ctx.program.depthLimit
  shown : ctx.Showable w v

variable {t : TypeExpr} {slot : String}

theorem outcome_alike (hp : ctx.program.Separate) (hw : w.BuiltIn cells) (hv : v.BuiltIn cells) {b : Bindings}
    (hown : Bindings.empty.Agrees slot b) :
    Outcome.Alike (ctx.outcome v t slot w (some b)) (ctx.outcome v t slot w none) :=
  (((comparison_alike hp hw slot).paired_judge hp hw.domain hw _) t [] hv).outcomes _ _ rfl ⟨b, rfl, hown⟩ rfl rfl

theorem outcome_covers (hp : ctx.program.Separate) (hw : w.BuiltIn cells) (hv : v.BuiltIn cells) (slot' : String)
    (hr : r = ctx.receiver ∨ r = none) (b : Bindings) :
    Outcome.Covers (ctx.outcome v t slot w (some b)) ((ctx.variant ctx.sampleSize r).outcome v t slot' w none) :=
  (((comparison_covers hp hw slot slot' hr).paired_judge hp hw.domain hw _) t [] hv).outcomes _ _ rfl rfl rfl rfl

theorem exists_outcome (hp : ctx.program.Separate) (h : ctx.Bounded w v t) (slot : String) (b : Option Bindings) :
    ∃ verdict, ctx.outcome v t slot w b = .ok verdict := by
  obtain ⟨n, hv, hlimit⟩ := h.depth
  have hconcludes := ends_satisfies hp h.doubles h.guarded h.names hv hlimit slot
  obtain ⟨verdict, s', hrun, -, -⟩ | ⟨e, s', -, ⟨himproper, -⟩ | ⟨hillegible, -⟩⟩ :=
    hconcludes { world := w, bindings := b } rfl
  · exact ⟨verdict, by rw [outcome, hrun]⟩
  · exact absurd h.sampleSize himproper
  · exact absurd h.shown hillegible

/-- A verdict that is not a rejection accepts. -/
theorem isOk_of_not_rejected {verdict : Verdict} (h : ¬ Outcome.Rejected (.ok verdict)) : verdict.isOk = true := by
  cases verdict with
  | no m => exact absurd ⟨m, rfl⟩ h
  | yes => rfl
  | maybe name => rfl

end Context

/-! ## In a session -/

namespace Session

variable {s before : Session} {text subject : String} {t : TypeExpr} {v : Value}

/-- Checking one value against a type comes to what judging it without bindings and without a receiver comes to. -/
theorem run_assertSubject (hread : (consult (·.parseType text)).run.run before = (.ok t, s)) (v : Value)
    (subject : String) :
    (∀ e, (s.context none).outcome v t subject s.world none = .error e →
      ((assertSubject text v subject).run.run before).1 = .error (.fault e)) ∧
    (∀ verdict, (s.context none).outcome v t subject s.world none = .ok verdict → verdict.isOk = true →
      ((assertSubject text v subject).run.run before).1 = .ok ()) := by
  obtain ⟨log, hjudging⟩ := run_judging none none (fun ctx => ctx.satisfies v t subject) s
  unfold assertSubject
  rw [run_bind, hread]
  dsimp only
  rw [run_bind, hjudging]
  dsimp only
  refine ⟨fun e he => ?_, fun verdict hverdict hok => ?_⟩
  · unfold Context.outcome at he
    rw [he]
    rfl
  · unfold Context.outcome at hverdict
    rw [hverdict]
    cases verdict with
    | no m => cases hok
    | yes => rfl
    | maybe name => rfl

theorem result_giving (m : Action Unit) (v : Value) (s : Session) :
    ((m >>= fun _ => pure v : Action Value).run.run s).1 = (m.run.run s).1.map fun _ => v := by
  rw [run_bind]
  rcases m.run.run s with ⟨_ | _, _⟩ <;> rfl

/-- Where judging does not reject the value, checking it ends in a fault if in any failure. -/
theorem giving_ne_nonconforming (hread : (consult (·.parseType text)).run.run before = (.ok t, s))
    (h : ¬ ((s.context none).outcome v t subject s.world none).Rejected) (report : Report) (cause : Option Raised) :
    ((assertSubject text v subject >>= fun _ => pure v : Action Value).run.run before).1
      ≠ .error (.nonconforming report cause) := by
  obtain ⟨hfault, hok⟩ := run_assertSubject hread v subject
  rw [result_giving]
  cases houtcome : (s.context none).outcome v t subject s.world none with
  | error e =>
    rw [hfault e houtcome]
    rintro ⟨⟩
  | ok verdict =>
    rw [houtcome] at h
    rw [hok verdict houtcome (Context.isOk_of_not_rejected h)]
    rintro ⟨⟩

/-- **Judging without bindings.**  A built-in value is judged in the same way without bindings and with fresh ones, and
neither ever finds a conflict.  Without bindings nothing is rejected that some bindings accept; so checking a value
against a type, which is done without bindings and without a receiver, never rejects what a slot of that type might
accept.  Where judging comes to an end, what is not rejected is accepted. -/
theorem unbound_agrees {cells : Nat → Prop} (hp : s.program.Separate) (hw : s.world.BuiltIn cells)
    (hv : v.BuiltIn cells) (receiver : Option Value) (t : TypeExpr) (slot : String) :
    Outcome.Alike ((s.context receiver).outcome v t slot s.world (some .empty))
      ((s.context receiver).outcome v t slot s.world none) ∧
    (∀ b, ((s.context receiver).outcome v t slot s.world (some b)).Accepted →
      ¬ ((s.context receiver).outcome v t slot s.world none).Rejected) ∧
    ((s.context receiver).Bounded s.world v t →
      ∃ verdict, (s.context receiver).outcome v t slot s.world none = .ok verdict ∧
        (((s.context receiver).outcome v t slot s.world (some .empty)).Accepted ↔ verdict.isOk = true) ∧
        ∀ b, ((s.context receiver).outcome v t slot s.world (some b)).Accepted → verdict.isOk = true) ∧
    ∀ b, ((s.context receiver).outcome v t slot s.world (some b)).Accepted →
      ∀ before text, (consult (·.parseType text)).run.run before = (.ok t, s) →
        (∀ report cause, ((assertType text v).run.run before).1 ≠ .error (.nonconforming report cause)) ∧
        (∀ path, Registry.constantOf path before.registry.constants = .ok v →
          ∀ report cause, ((assertConstant text path).run.run before).1 ≠ .error (.nonconforming report cause)) ∧
        ((s.context receiver).Bounded s.world v t → ((assertType text v).run.run before).1 = .ok v) := by
  have hcovers (slot' : String) (b : Bindings)
      (h : ((s.context receiver).outcome v t slot s.world (some b)).Accepted) :
      ¬ ((s.context receiver).outcome v t slot' s.world none).Rejected ∧
        ¬ ((s.context none).outcome v t slot' s.world none).Rejected :=
    ⟨Context.outcome_covers hp hw hv slot' (.inl rfl) b h, Context.outcome_covers hp hw hv slot' (.inr rfl) b h⟩
  have halike : Outcome.Alike ((s.context receiver).outcome v t slot s.world (some .empty))
      ((s.context receiver).outcome v t slot s.world none) := Context.outcome_alike hp hw hv (.refl slot _)
  refine ⟨halike, fun b h => (hcovers slot b h).1, fun hbounded => ?_, fun b h before text hread => ⟨?_, ?_, ?_⟩⟩
  · obtain ⟨verdict, hverdict⟩ := Context.exists_outcome hp hbounded slot none
    refine ⟨verdict, hverdict, ⟨fun h => ?_, fun hok => ?_⟩, fun b h => ?_⟩
    · exact Context.isOk_of_not_rejected (hverdict ▸ (hcovers slot _ h).1)
    · exact (hverdict ▸ halike).accepted_left hok
    · exact Context.isOk_of_not_rejected (hverdict ▸ (hcovers slot b h).1)
  · exact giving_ne_nonconforming hread (hcovers "value" b h).2
  · intro path hconstant report cause
    have hrun : (assertConstant text path).run.run before =
        (assertSubject text v path >>= fun _ => pure v : Action Value).run.run before := by
      unfold assertConstant
      rw [run_bind]
      simp only [run_get, hconstant]
      rfl
    rw [hrun]
    exact giving_ne_nonconforming hread (hcovers path b h).2 report cause
  · intro hbounded
    have hopen : (s.context none).Bounded s.world v t :=
      { hbounded with shown := fun u hu => ⟨(hbounded.shown u hu).keys, (hbounded.shown u hu).whole⟩ }
    obtain ⟨verdict, hverdict⟩ := Context.exists_outcome hp hopen "value" none
    have hok := Context.isOk_of_not_rejected (hverdict ▸ (hcovers "value" b h).2)
    have hsubject := (run_assertSubject hread v "value").2 verdict hverdict hok
    exact (result_giving _ v before).trans (by rw [hsubject]; rfl)

/-- A session with an alias that refers to itself. -/
def jsonSession : Session where
  registry := Context.jsonRegistry

/-- A key and a value that the alias takes in. -/
def keyed : Value := .sequence .tuple [.str "k", Context.jsonValue]

def keyedType : TypeExpr := .tuple [.typeVar "K", .classRef "json" []]

theorem keyed_finite : keyed.Finite jsonSession.world 5 := by
  have hitems : ∀ x ∈ [Value.str "k", Context.jsonValue], x.Finite jsonSession.world 4 := by
    simpa using ⟨.atom rfl rfl, Context.jsonValue_finite _⟩
  exact .sequence (by decide) (by decide) hitems (by simp)

/-- Bindings of another slot. -/
def keyBound : Bindings := ⟨[("K", ⟨[.builtin "int"], "y"⟩)]⟩

theorem keyed_fit :
    Context.jsonRegistry.knows keyedType = true ∧ Context.jsonRegistry.recursionBound keyedType 5 ≤ 1000 ∧
    ((jsonSession.context none).outcome keyed keyedType "x" jsonSession.world (some .empty)).toOption.map (·.isOk)
      = some true ∧
    ((jsonSession.context none).outcome keyed keyedType "x" jsonSession.world (some keyBound)).toOption.map (·.isOk)
      = some false := by
  decide +kernel

theorem keyed_bounded : (jsonSession.context none).Bounded jsonSession.world keyed keyedType := by
  obtain ⟨hlayered, hcomplete, -⟩ := Context.jsonRegistry_fit
  obtain ⟨hknown, hlimit, -⟩ := keyed_fit
  refine ⟨fun d hd => ?_, Registry.guarded_of_isLayered hlayered,
    Registry.not_leads_of_isComplete hcomplete hknown, Context.isProper_hundred, ⟨5, keyed_finite, hlimit⟩, ?_⟩
  · cases hd
  · refine Value.throughout_sequence (Context.canShow_of_quiet rfl fun _ _ hv => by cases hv) ?_
    have hkey : (jsonSession.context none).Showable jsonSession.world (.str "k") :=
      Value.throughout_atom rfl rfl (Context.canShow_of_quiet rfl fun _ _ hv => by cases hv)
    simpa using ⟨hkey, Context.jsonValue_showable rfl _⟩

/-- With fresh bindings the value is accepted, and so it is without bindings, though not where another slot has bound the
variable. -/
theorem unbound_agrees_keyed :
    (jsonSession.context none).Bounded jsonSession.world keyed keyedType ∧
    ¬ ((jsonSession.context none).outcome keyed keyedType "x" jsonSession.world (some keyBound)).Accepted ∧
    ((jsonSession.context none).outcome keyed keyedType "x" jsonSession.world (some .empty)).Accepted ∧
    ∃ verdict, (jsonSession.context none).outcome keyed keyedType "x" jsonSession.world none = .ok verdict ∧
      verdict.isOk = true := by
  obtain ⟨-, -, hfresh, hbound⟩ := keyed_fit
  rw [← Outcome.accepted_iff] at hfresh
  have hrejected : ¬ ((jsonSession.context none).outcome keyed keyedType "x" jsonSession.world
      (some keyBound)).Accepted := by
    rw [Outcome.accepted_iff, hbound]
    decide
  obtain ⟨-, -, hends, -⟩ := unbound_agrees (s := jsonSession) Program.separate_empty
    (World.builtIn_finiteCells _) keyed_finite.builtIn none keyedType "x"
  obtain ⟨verdict, hverdict, -, haccepts⟩ := hends keyed_bounded
  exact ⟨keyed_bounded, hrejected, hfresh, verdict, hverdict, haccepts _ hfresh⟩

/-- A session whose samples cannot be counted up to. -/
def countless : Session where
  sampleSize := some (Sampling.largestLimit + 1)

/-- What a variable does not take in is not looked at any further, if anything else is taken in. -/
def keyedOrAnything : TypeExpr := .union [.tuple [.typeVar "K", .classRef "Array" [.classRef "int" []]], .untyped]

/-- A value is accepted where another slot has bound the variable, and not judged to the end without bindings: there a
sample of its second element is due. -/
theorem bound_spares_sample :
    let v : Value := .sequence .list [.str "a", .sequence .list [.int 1]]
    ((countless.context none).outcome v keyedOrAnything "x" countless.world (some keyBound)).toOption.map (·.isOk)
      = some true ∧
    ((countless.context none).outcome v keyedOrAnything "x" countless.world none).toOption.map (·.isOk) = none := by
  decide +kernel

end Session

end Conformance
