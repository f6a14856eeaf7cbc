import Mathlib
import Conformance.Proofs.Lockstep

/-!
# Properties that pervade judgements

A property of computations pervades judgements if all that judgements are made of has it, except where a type
variable is met and where a name is looked up (`Pervades`); so a whole judgement has it as soon as those two do
(`Pervades.satisfies`).

A `Law` says how the bindings may change in the course of a judgement, and which faults it may end in.  To obey it
is such a property (`Law.pervades`).

`TypeExpr.Part` is one step from a type to a type that parts of a value are judged against on its account;
`TypeExpr.Within` is any number of them.  An alias has its expansion as its only part.
-/

namespace Conformance

variable {slot : String} {t : TypeExpr}

/-! ## Parts of a type -/

/-- One step from a type to a type that judging goes on with. -/
inductive TypeExpr.Part (r : Registry) : TypeExpr → TypeExpr → Prop
  | expansion {name : String} {args : List TypeExpr} {t : TypeExpr} (halias : r.isAlias name = true)
      (ht : r.expansionOf name = .ok t) : Part r (.classRef name args) t
  | argument {name : String} {args : List TypeExpr} {t : TypeExpr} (halias : r.isAlias name = false)
      (ht : t ∈ args) : Part r (.classRef name args) t
  | alternative {ts : List TypeExpr} {t : TypeExpr} (ht : t ∈ ts) : Part r (.union ts) t
  | conjunct {ts : List TypeExpr} {t : TypeExpr} (ht : t ∈ ts) : Part r (.intersection ts) t
  | element {ts : List TypeExpr} {t : TypeExpr} (ht : t ∈ ts) : Part r (.tuple ts) t
  | field {fields : List (Field TypeExpr)} {extra : Option TypeExpr} {f : Field TypeExpr}
      (hf : f ∈ fields) : Part r (.record fields extra) f.type
  | extra {fields : List (Field TypeExpr)} {t : TypeExpr} : Part r (.record fields (some t)) t
  | inner {t : TypeExpr} : Part r (.optional t) t

/-- Any number of steps from a type to a type that judging goes on with. -/
abbrev TypeExpr.Within (r : Registry) : TypeExpr → TypeExpr → Prop := Relation.ReflTransGen (TypeExpr.Part r)

theorem TypeExpr.alike_of_parts (r : Registry) (t : TypeExpr) : t.Alike r (fun u u' => u' = u ∧ Part r t u) t := by
  cases t with
  | untyped => exact .untyped
  | base kind => exact .base kind
  | classRef name args =>
    cases halias : r.isAlias name with
    | true => exact .expansion halias fun u hu => ⟨rfl, .expansion halias hu⟩
    | false => exact .classRef halias (List.forall₂_same.2 fun u hu => ⟨rfl, .argument halias hu⟩)
  | singleton name => exact .singleton name
  | interface name methods => exact .interface name (List.forall₂_same.2 fun c _ => .refl c)
  | union ts => exact .union (List.forall₂_same.2 fun u hu => ⟨rfl, .alternative hu⟩)
  | intersection ts => exact .intersection (List.forall₂_same.2 fun u hu => ⟨rfl, .conjunct hu⟩)
  | tuple ts => exact .tuple (List.forall₂_same.2 fun u hu => ⟨rfl, .element hu⟩)
  | record fields extra =>
    refine .record (List.forall₂_same.2 fun f hf => ⟨rfl, rfl, rfl, .field hf⟩) ?_
    cases extra with
    | none => exact .none
    | some u => exact .some ⟨rfl, .extra⟩
  | literal l => exact .literal l
  | typeVar name => exact .typeVar name
  | optional inner => exact .optional ⟨rfl, .inner⟩
  | proc params result block => exact .proc fun _ => rfl

/-! ## Runs -/

section Runs

variable {ε σ α β : Type} {m : ExceptT ε (StateM σ) α} {f : α → ExceptT ε (StateM σ) β} {s s' : σ}

theorem run_bind (m : ExceptT ε (StateM σ) α) (f : α → ExceptT ε (StateM σ) β) (s : σ) :
    (m >>= f).run.run s =
      match m.run.run s with
      | (.ok a, s') => (f a).run.run s'
      | (.error e, s') => (.error e, s') := by
  simp only [ExceptT.run_bind, StateT.run_bind]
  rcases m.run.run s with ⟨_ | _, _⟩ <;> rfl

theorem run_get (s : σ) : (get : ExceptT ε (StateM σ) σ).run.run s = (.ok s, s) := rfl

theorem run_bind_ok {b : β} (h : (m >>= f).run.run s = (.ok b, s')) :
    ∃ a mid, m.run.run s = (.ok a, mid) ∧ (f a).run.run mid = (.ok b, s') := by
  rw [run_bind] at h
  rcases hm : m.run.run s with ⟨e | a, mid⟩
  · rw [hm] at h
    cases h
  · rw [hm] at h
    exact ⟨a, mid, rfl, h⟩

/-- A computation that fails does so in its first part, or in what comes after it. -/
theorem run_bind_error {e : ε} (h : (m >>= f).run.run s = (.error e, s')) :
    m.run.run s = (.error e, s') ∨ ∃ a mid, m.run.run s = (.ok a, mid) ∧ (f a).run.run mid = (.error e, s') := by
  rw [run_bind] at h
  rcases hm : m.run.run s with ⟨e' | a, mid⟩
  · rw [hm] at h
    cases h
    exact .inl rfl
  · rw [hm] at h
    exact .inr ⟨a, mid, rfl, h⟩

end Runs

namespace Judging

variable {α β : Type}

theorem run_demand (result : Except Fault α) (s : Scene) :
    (demand result).run.run s = (result, s) := rfl

theorem run_running (run : Run α) (s : Scene) :
    (running run).run.run s =
      match run.run.run s.world with
      | (.ok a, world) => (.ok a, { s with world })
      | (.error r, world) => (.error (.raised r), { s with world }) := rfl

theorem run_tentatively (attempt : Judging Verdict) (s : Scene) :
    attempt.tentatively.run.run s =
      match attempt.run.run s with
      | (.ok verdict, after) =>
        (.ok verdict, if verdict.isOk then after else { after with bindings := s.bindings })
      | (.error e, after) => (.error e, { after with bindings := s.bindings }) := rfl

theorem run_tentatively_ok {m : Judging Verdict} {s after : Scene} {verdict : Verdict}
    (h : m.run.run s = (.ok verdict, after)) :
    m.tentatively.run.run s =
      (.ok verdict, if verdict.isOk then after else { after with bindings := s.bindings }) := by
  rw [run_tentatively, h]

/-- A judgement is related to itself by a relation that admits everything within the type. -/
theorem Lockstep.judge {faults : Fault → Prop} {P : (α : Type) → Judging α → Prop}
    {R : Judging Verdict → Judging Verdict → Prop} (hR : Lockstep faults P R) {ctx : Context}
    (hadm : ∀ u, TypeExpr.Within ctx.registry t u → Admits faults (fun m => R m m) ctx slot u) (fuel : Nat)
    (v : Value) (steps : List Selector) : R (ctx.judge fuel v t ⟨slot, steps⟩) (ctx.judge fuel v t ⟨slot, steps⟩) := by
  induction fuel generalizing t v steps with
  | zero => exact hR.fault rfl
  | succ fuel ih =>
    have hparts : ∀ u u', u' = u ∧ TypeExpr.Part ctx.registry t u →
        ∀ x q, R (ctx.judge fuel x u ⟨slot, q⟩) (ctx.judge fuel x u' ⟨slot, q⟩) := by
      rintro u _ ⟨rfl, hu⟩
      exact ih fun x hx => hadm x (.head hu hx)
    rw [Context.judge]
    refine hR.judgeUnlessDouble (fun u _ => ?_) v
    exact hR.judgeWith ⟨slot, steps⟩ hparts (hadm t .refl) (t.alike_of_parts ctx.registry) u

/-! ## Pervasive properties -/

/-- A property that inspections have, and attempts of something that has it. -/
structure Pervades (faults : Fault → Prop) (P : (α : Type) → Judging α → Prop) : Prop extends Inspecting faults P where
  tentatively : ∀ {m : Judging Verdict}, P Verdict m → P Verdict m.tentatively

namespace Pervades

variable {faults : Fault → Prop} {P : (α : Type) → Judging α → Prop} (hP : Pervades faults P) {ctx : Context}

include hP

theorem lockstep : Lockstep faults P fun m _ => P Verdict m where
  toInspecting := hP.toInspecting
  settled verdict := hP.pure verdict
  rejected m _ := hP.pure (Verdict.no m)
  inspect := hP.bind
  inWorld := hP.world
  andThen := hP.andThen
  attempt hm hrest failures _ := by
    refine hP.bind (hP.tentatively hm) fun verdict => ?_
    cases verdict with
    | no m => exact hrest _ []
    | yes => exact hP.pure _
    | maybe name => exact hP.pure _

/-- A judgement has a property that admits everything within the type. -/
theorem judge (hadm : ∀ u, TypeExpr.Within ctx.registry t u → Admits faults (P Verdict) ctx slot u) (fuel : Nat)
    (v : Value) (steps : List Selector) : P _ (ctx.judge fuel v t ⟨slot, steps⟩) :=
  hP.lockstep.judge hadm fuel v steps

/-- The value in a slot is judged with a property that admits everything within the type. -/
theorem satisfies (hadm : ∀ u, TypeExpr.Within ctx.registry t u → Admits faults (P Verdict) ctx slot u) (v : Value) :
    P _ (ctx.satisfies v t slot) :=
  hP.judge hadm _ v []

end Pervades

end Judging

/-! ## Laws -/

namespace Judging

variable {α β : Type}

/-- How the bindings may change, and which faults may occur. -/
structure Law where
  step : Option Bindings → Option Bindings → Prop
  faults : Fault → Prop
  refl : ∀ b, step b b
  trans : ∀ {a b c}, step a b → step b c → step a c
  inspection : ∀ e : Fault, e.isInspection = true → faults e

/-- Whatever the scene and however it ends, the computation keeps to the law. -/
def Law.Obeyed (L : Law) (m : Judging α) : Prop :=
  ∀ s, L.step s.bindings (m.run.run s).2.bindings ∧ ∀ e, (m.run.run s).1 = .error e → L.faults e

namespace Law

variable {L : Law}

theorem obeyed_pure (a : α) : L.Obeyed (pure a : Judging α) :=
  fun s => ⟨L.refl s.bindings, fun _ he => nomatch he⟩

theorem obeyed_get : L.Obeyed (get : Judging Scene) :=
  fun s => ⟨L.refl s.bindings, fun _ he => nomatch he⟩

theorem Obeyed.bind {m : Judging α} {f : α → Judging β} (hm : L.Obeyed m) (hf : ∀ a, L.Obeyed (f a)) :
    L.Obeyed (m >>= f) := by
  intro s
  obtain ⟨hstep, hfault⟩ := hm s
  rw [run_bind]
  rcases hr : m.run.run s with ⟨e | a, s'⟩
  · rw [hr] at hstep hfault
    exact ⟨hstep, fun e' he => hfault e' (by cases he; rfl)⟩
  · rw [hr] at hstep
    exact ⟨L.trans hstep (hf a s').1, (hf a s').2⟩

theorem obeyed_running (run : Run α) : L.Obeyed (running run) := by
  intro s
  rw [run_running]
  rcases run.run.run s.world with ⟨r | a, w⟩
  · exact ⟨L.refl _, fun e he => by cases he; exact L.inspection _ rfl⟩
  · exact ⟨L.refl _, fun _ he => nomatch he⟩

theorem Obeyed.tentatively {m : Judging Verdict} (hm : L.Obeyed m) : L.Obeyed m.tentatively := by
  intro s
  obtain ⟨hstep, hfault⟩ := hm s
  rw [run_tentatively]
  rcases hr : m.run.run s with ⟨e | verdict, s'⟩
  · rw [hr] at hfault
    exact ⟨L.refl _, fun e' he => hfault e' he⟩
  · rw [hr] at hstep
    refine ⟨?_, fun _ he => nomatch he⟩
    by_cases hv : verdict.isOk = true
    · simpa [hv] using hstep
    · simpa [hv] using L.refl s.bindings

/-- To obey a law pervades judgements. -/
theorem pervades (L : Law) : Pervades L.faults fun _ => L.Obeyed where
  inspection := L.inspection
  pure := obeyed_pure
  bind := Obeyed.bind
  world h := obeyed_get.bind fun s => h s.world
  demand h s := ⟨L.refl s.bindings, h⟩
  running := obeyed_running
  happen _ s := ⟨L.refl s.bindings, fun _ he => nomatch he⟩
  tentatively := Obeyed.tentatively

theorem Obeyed.ite {m n : Judging α} {c : Prop} [Decidable c] (hm : L.Obeyed m) (hn : L.Obeyed n) :
    L.Obeyed (if c then m else n) :=
  Inspecting.ite (P := fun _ => L.Obeyed) hm hn

/-- What a law asks of a type itself. -/
abbrev Admits (L : Law) : Context → String → TypeExpr → Prop := Judging.Admits L.faults L.Obeyed

end Law

end Judging

namespace Context

open Judging

variable {L : Law}

/-- To take note of a text changes nothing but what has happened. -/
theorem run_note_text (ctx : Context) (level : LogLevel) (source : LogSource) (text : String) (s : Scene) :
    ∃ events, (ctx.note level source (return text)).run.run s = (.ok (), { s with events }) := by
  unfold note
  split
  · exact ⟨.noted ⟨level, source, text⟩ :: s.events, rfl⟩
  · exact ⟨s.events, rfl⟩

/-- The value in a slot is judged in keeping with a law that admits everything within the type. -/
theorem satisfies_obeys {ctx : Context} (hadm : ∀ u, TypeExpr.Within ctx.registry t u → L.Admits ctx slot u)
    (v : Value) : L.Obeyed (ctx.satisfies v t slot) :=
  L.pervades.satisfies hadm v

end Context

end Conformance
