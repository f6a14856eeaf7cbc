import Conformance.Proofs.Finite
import Conformance.Proofs.Guarded
import Conformance.Proofs.Satisfaction

/-!
# The descent of a judgement

That judgements of built-in values are sound, that they end, that two of them agree: each is a relation between two
judgements that lasts when judgements are put together.  `Judging.Rules` says what has to be known of the relation for
that.  It may also tell what an accepting verdict stands for, as something that holds of the bindings.

`Descent` adds what depends on the relation: alternatives, base types, type variables and samples.  `Grounds` says which
values are judged, and that they can be looked into.  From these, `Descent.judgeWith` goes down all kinds of types: the
relation holds of the judgement of a value if it holds of the judgements that this one leads to.

What looking into a value gives is the same on both sides (`Inspects`).
-/

namespace Conformance

open Run

variable {name : String}

/-- What holds under some bindings holds when more is bound. -/
def Bindings.Lasting (F : Bindings → Prop) : Prop := ∀ b b', b.Extends b' → F b → F b'

theorem Context.lasting_sat (ctx : Context) (w : World) (v : Value) (t : TypeExpr) :
    Bindings.Lasting fun b => ctx.Sat w b v t :=
  fun _ _ hb h => h.mono hb

/-! ## Elements of collections -/

namespace Program

/-- Going through the value gives these elements, and it says how many they are.  To ask a sequence for what is at some
position changes nothing, and gives the element there if anything. -/
structure Yields (p : Program) (w : World) (v : Value) (items : List Value) : Prop where
  feed : (p.feed p.invoke v).run.run w = (.ok (.known items), w)
  size : (p.size p.invoke v).run.run w = (.ok items.length, w)
  item : p.isInstance v (.container "Sequence") = true → ∀ i : Nat,
    Quiet w (p.item p.invoke v (.int i)) (items[i]? = some ·)

/-- A built-in collection gives its elements, however many they are. -/
theorem Separate.yields {p : Program} {w : World} {cells : Nat → Prop} {v : Value} {items : List Value}
    (hp : p.Separate) (hv : v.BuiltIn cells) (hcollection : v.isCollection = true) (hitems : v.items? = some items) :
    p.Yields w v items := by
  have hcell := Value.isCell_of_isCollection hcollection
  have hrange := Value.ne_range_of_isCollection hcollection
  obtain ⟨hiter, hlen, -⟩ := NativeClass.member?_collections _ (hv.classOf_mem hcollection)
  refine ⟨hp.run_feed hv hcell (Value.isOneShot_of_isCollection hcollection) hiter hitems, ?_, fun hsequence i => ?_⟩
  · rw [hp.run_size hv hcell hlen, nativeSize_eq hv hitems hrange]
  obtain ⟨hrun, hmapping⟩ := hp.run_item_native (w := w) hv hcollection hsequence i
  rw [Quiet, hrun, hp.run_nativeItem hv hcell hmapping]
  split
  · exact ⟨rfl, fun _ h => by cases h⟩
  rcases Nat.lt_or_ge i items.length with hi | hi
  · have hx := List.getElem?_eq_getElem hi
    exact quiet_of_run (run_itemAt hv hitems hrange hx) hx
  · obtain ⟨message, hat⟩ := run_itemAt_outside (w := w) hv hitems hrange hi
    rw [hat]
    exact ⟨rfl, fun _ h => by cases h⟩

end Program

namespace Judging

variable {α β : Type} {w : World} {E : Fault → Prop}

/-! ## Inspections -/

/-- From a state of the program the computation comes to this result, and changes nothing but what has happened. -/
def Gives (w : World) (m : Judging α) (result : Except Fault α) : Prop :=
  ∀ s, s.world = w → ∃ events, m.run.run s = (result, { s with events })

/-- From a state of the program the computation always comes to the same, something that has the property or one of the
faults, and changes nothing but what has happened. -/
def Inspects (w : World) (E : Fault → Prop) (m : Judging α) (Q : α → Prop) : Prop :=
  ∃ result, Gives w m result ∧ (∀ a, result = .ok a → Q a) ∧ ∀ e, result = .error e → E e

theorem gives_demand (result : Except Fault α) : Gives w (demand result) result := fun s _ => ⟨s.events, rfl⟩

theorem Gives.inspects {m : Judging α} {Q : α → Prop} {a : α} (hm : Gives w m (.ok a)) (ha : Q a) :
    Inspects w E m Q := by
  refine ⟨.ok a, hm, fun b hb => ?_, fun e he => by cases he⟩
  cases hb
  exact ha

theorem inspects_demand {result : Except Fault α} (h : ∀ e, result = .error e → E e) :
    Inspects w E (demand result) (result = .ok ·) :=
  ⟨result, gives_demand result, fun _ h => h, h⟩

theorem inspects_pure {Q : α → Prop} {a : α} (ha : Q a) : Inspects w E (pure a) Q :=
  Gives.inspects (fun s _ => ⟨s.events, rfl⟩) ha

theorem inspects_happen (e : Event) : Inspects w E (happen e) fun _ => True :=
  Gives.inspects (a := ()) (fun s _ => ⟨e :: s.events, rfl⟩) trivial

theorem inspects_answers {Q : α → Prop} {run : Run α} (h : Answers w run Q) : Inspects w E (running run) Q := by
  obtain ⟨a, hrun, ha⟩ := h
  refine Gives.inspects (fun s hs => ⟨s.events, ?_⟩) ha
  subst hs
  rw [run_running, hrun]

theorem inspects_shows {run : Run α} {legible : Prop} (h : Shows w run legible)
    (hE : ¬ legible → E (.raised .tooManyDigits)) : Inspects w E (running run) fun _ => True := by
  by_cases hlegible : legible
  · obtain ⟨a, hrun⟩ := h.1 hlegible
    exact inspects_answers ⟨a, hrun, trivial⟩
  · refine ⟨.error (.raised .tooManyDigits), fun s hs => ⟨s.events, ?_⟩, fun a ha => (by cases ha), fun e he => ?_⟩
    · subst hs
      rw [run_running, h.2 hlegible]
    · cases he
      exact hE hlegible

theorem inspects_running {Q : α → Prop} {run : Run α} (h : Quiet w run Q) :
    Inspects w (fun _ => True) (running run) Q := by
  obtain ⟨hstate, hresult⟩ := h
  rcases hrun : run.run.run w with ⟨r | a, left⟩
  · refine ⟨.error (.raised r), fun s hs => ⟨s.events, ?_⟩, fun a ha => (by cases ha), fun _ _ => trivial⟩
    obtain rfl : left = w := by rw [← hstate, hrun]
    subst hs
    rw [run_running, hrun]
  · obtain rfl : left = w := by rw [← hstate, hrun]
    exact inspects_answers ⟨a, hrun, hresult a (by rw [hrun])⟩

/-- Where it is not sure that something is settled, any fault may come of it. -/
theorem inspects_settles {Q : α → Prop} {run : Run α} {sure : Prop} (h : Settles w sure run Q) (hE : ¬ sure → ∀ e, E e) :
    Inspects w E (running run) Q := by
  by_cases hsure : sure
  · exact inspects_answers (h.answers hsure)
  · obtain ⟨result, hgives, hresult, -⟩ := inspects_running h.1
    exact ⟨result, hgives, hresult, fun e _ => hE hsure e⟩

theorem Inspects.bind {m : Judging α} {f : α → Judging β} {Q : α → Prop} {R : β → Prop} (hm : Inspects w E m Q)
    (hf : ∀ a, Q a → Inspects w E (f a) R) : Inspects w E (m >>= f) R := by
  obtain ⟨result, hgives, hresult, hfault⟩ := hm
  cases result with
  | error e =>
    refine ⟨.error e, fun s hs => ?_, fun _ h => (by cases h), fun e' he' => ?_⟩
    · obtain ⟨events, hrun⟩ := hgives s hs
      exact ⟨events, by rw [run_bind, hrun]⟩
    · cases he'
      exact hfault e rfl
  | ok a =>
    obtain ⟨result, hgives', hresult'⟩ := hf a (hresult a rfl)
    refine ⟨result, fun s hs => ?_, hresult'⟩
    obtain ⟨events, hrun⟩ := hgives s hs
    obtain ⟨events', hrun'⟩ := hgives' { s with events } hs
    exact ⟨events', by rw [run_bind, hrun]; exact hrun'⟩

theorem inspects_world {f : World → Judging α} {Q : α → Prop} (h : Inspects w E (f w) Q) :
    Inspects w E (get >>= fun s => f s.world) Q := by
  obtain ⟨result, hgives, hresult⟩ := h
  refine ⟨result, fun s hs => ?_, hresult⟩
  subst hs
  exact hgives s rfl

theorem inspects_resolve (v : Value) : Inspects w E (resolve v) (· = w.resolve v) :=
  inspects_world (f := fun w => pure (w.resolve v)) (inspects_pure rfl)

/-! ## Relations between judgements -/

/-- A relation between two judgements, and what an accepting verdict stands for. -/
abbrev Relation := (Bindings → Prop) → Judging Verdict → Judging Verdict → Prop

/-- A property of one judgement, whatever the other is. -/
def alone (S : (Bindings → Prop) → Judging Verdict → Prop) : Relation := fun F m _ => S F m

/-- What is asked of a relation between judgements in two slots, so that it can be shown of judgements part by part. -/
structure Rules (w : World) (E : Fault → Prop) (slot slot' : String) (R : Relation) : Prop where
  mono : ∀ {F G : Bindings → Prop} {m m' : Judging Verdict}, R F m m' → (∀ b, F b → G b) → R G m m'
  accepted : ∀ {F : Bindings → Prop}, (∀ b, F b) → R F (pure .yes) (pure .yes)
  rejected : ∀ {F : Bindings → Prop} (steps : List Selector) (v : Value) (t : TypeExpr) (reason : Reason),
    R F (pure (.no (Context.mismatch v t ⟨slot, steps⟩ reason))) (pure (.no (Context.mismatch v t ⟨slot', steps⟩ reason)))
  inspect : ∀ {α : Type} {F : Bindings → Prop} {m m' : Judging α} {f f' : α → Judging Verdict} {result : Except Fault α},
    Gives w m result → Gives w m' result → (∀ e, result = .error e → E e) → (∀ a, result = .ok a → R F (f a) (f' a)) →
    R F (m >>= f) (m' >>= f')
  world : ∀ {F : Bindings → Prop} {f g : World → Judging Verdict}, R F (f w) (g w) →
    R F (get >>= fun s => f s.world) (get >>= fun s => g s.world)
  andThen : ∀ {F G : Bindings → Prop} {m m' n n' : Judging Verdict}, Bindings.Lasting F → R F m m' → R G n n' →
    R (fun b => F b ∧ G b) (m.andThen n) (m'.andThen n')

end Judging

namespace Context

open Judging

/-- The context with another sample size and another receiver. -/
abbrev variant (ctx : Context) (sampleSize : Option Int) (receiver : Option Value) : Context :=
  { ctx with sampleSize, receiver }

variable {ctx : Context} {w : World} {cells : Nat → Prop} {E : Fault → Prop} {v : Value}

theorem isAmong_variant (ctx : Context) (k : Option Int) (r : Option Value) (v : Value) (targets : List Target) :
    (ctx.variant k r).isAmong v targets = ctx.isAmong v targets := by
  induction targets with
  | nil => rfl
  | cons target targets ih =>
    cases target with
    | ofModule home => rfl
    | ofClass c =>
      simp only [isAmong, ih]
      rfl

/-- A record that shows a value is made, if there is somebody to read it, unless an integer has too many digits. -/
theorem inspects_note (hp : ctx.program.Separate) (hw : w.BuiltIn cells) (hv : v.BuiltIn cells) (level : LogLevel)
    (source : LogSource) (message : String → String)
    (hE : ctx.logging = true → ¬ (w.view v).Legible → E (.raised .tooManyDigits)) :
    Inspects w E (ctx.note level source (do return message (← ctx.shown v))) fun _ => True := by
  unfold note
  split
  · rename_i hlogging
    have hshown : Shows w (do return message (← ctx.shown v)) (w.view v).Legible := (hp.shows_shown hw hv).map message
    exact (inspects_shows hshown (hE hlogging)).bind fun _ _ => inspects_happen _
  · exact inspects_pure trivial

theorem gives_note_text (ctx : Context) (level : LogLevel) (source : LogSource) (text : String) :
    Gives w (ctx.note level source (return text)) (.ok ()) :=
  fun s _ => ctx.run_note_text level source text s

theorem inspects_sampling {α : Type} {run : Run α} {Q : α → Prop} (h : Answers w run Q) :
    Inspects w E (ctx.sampling run) Q := by
  obtain ⟨a, hrun, ha⟩ := h
  refine inspects_answers ⟨a, ?_, ha⟩
  rw [run_tryCatch, hrun]

theorem answers_next_known (items : List Value) :
    Answers w (ctx.next (.known items)) fun r => r = items.head?.map fun x => (x, .known items.tail) := by
  cases items <;> exact ⟨_, rfl, rfl⟩

theorem isInstance_of_access (h : ctx.access v = .byIndex) :
    ctx.program.isInstance v (.container "Sequence") = true := by
  unfold access at h
  split at h
  · cases h
  · split at h
    · rename_i hsequence
      exact hsequence
    · cases h

theorem inspects_target (h : ∀ e, ctx.registry.classOf name = .error e → E e) :
    Inspects w E (ctx.target name) fun target => ctx.registry.classOf name = .ok target :=
  (inspects_demand h).bind fun _ htarget => (inspects_happen _).bind fun _ _ => inspects_pure htarget

theorem settles_isDeclared {sure : Prop} {n : Nat} (hp : ctx.program.Separate) (hw : w.BuiltIn cells)
    (hn : sure → n < ctx.program.depthLimit) (fields : List (Field TypeExpr)) {key : Value}
    (hkey : Program.SizedKey cells w sure n key) :
    Settles w sure (ctx.isDeclared fields key) (· = ctx.declaresNow w fields key) := by
  have hkeys : ∀ k ∈ fields.map fun f => Value.ofKey f.key, Program.SizedKey cells w sure n k := by
    intro k hk
    obtain ⟨f, -, rfl⟩ := List.mem_map.1 hk
    exact Program.sizedKey_ofKey f.key
  refine (hp.settles_place? hw hn hkeys hkey).bind fun place hplace => settles_pure ?_
  rw [hplace.1]
  rfl

section Capabilities

variable (hp : ctx.program.Separate) (hv : v.BuiltIn cells) (hcell : v.isCell = false)
include hp hv hcell

theorem inspects_capability? (name : String) :
    Inspects w E (ctx.capability? v name) (· = (ctx.program.capability? v name).map (·.resolved w)) := by
  have hfound : Answers w (if Program.isSpecial name then ctx.program.special? v name else do
      return (← ctx.program.endingOn ["AttributeError"] (ctx.program.ask ctx.program.invoke v name)).join)
      (· = ctx.program.capability? v name) := by
    unfold Program.capability?
    split
    · refine ⟨_, Program.run_special? _ _ _ _, ?_⟩
      rw [World.resolve_of_isCell hcell]
      cases hattribute : ctx.program.classAttribute? v name with
      | none => rfl
      | some found =>
        rw [Option.map_some, hp.withReceiver_classAttribute? hv hattribute]
    · refine Answers.bind (Q := (· = some _)) ⟨_, Program.run_endingOn (hp.run_ask_builtIn hv hcell), rfl⟩ ?_
      rintro _ rfl
      exact answers_pure rfl
  refine (inspects_answers hfound).bind fun found hfound => ?_
  subst hfound
  exact inspects_world (f := fun w => pure ((ctx.program.capability? v name).map (·.resolved w)))
    (Q := (· = (ctx.program.capability? v name).map (·.resolved w))) (inspects_pure rfl)

theorem inspects_lacking? (c : Capability TypeExpr) :
    Inspects w E (ctx.lacking? v c) fun reason => reason = none → ctx.offers w v c = true := by
  refine (inspects_capability? hp hv hcell c.name).bind fun found hfound => ?_
  subst hfound
  split
  · exact inspects_pure fun h => nomatch h
  · rename_i found hfound
    split
    · exact inspects_pure fun h => nomatch h
    · rename_i hinherits
      refine inspects_pure fun hfits => ?_
      have hparams : (c.params.all fun params =>
          Program.fits (ctx.program.attributeFormals? found) params) = true := by
        cases hc : c.params with
        | none => rfl
        | some params =>
          rw [hc, Option.bind_some] at hfits
          by_contra hfalse
          rw [Option.all_some] at hfalse
          rw [if_neg hfalse] at hfits
          exact nomatch hfits
      unfold offers
      dsimp only
      rw [hfound]
      simp only [hparams, Bool.and_true, Bool.eq_false_of_not_eq_true hinherits, Bool.not_false]

end Capabilities

/-- The plan of a sample leads to no faults but these. -/
def Feasible (ctx : Context) (w : World) (E : Fault → Prop) (v : Value) (items : List Value) : Sampling.Plan → Prop
  | .all => True
  | .first limit => ∀ e, Sampling.firstCount limit = .error e → E e
  | .pickOut wanted => ∀ i ∈ wanted, Inspects w E (ctx.sampling (ctx.item v (.int i))) (items[i]? = some ·)
  | .goThrough wanted => wanted = [] → E .negativeSample

/-- The sample of a collection can be taken, up to some faults, if it has the size that it says it has. -/
def Plannable (ctx : Context) (w : World) (E : Fault → Prop) (v : Value) (items : List Value) : Prop :=
  ∀ size : Nat, (ctx.sampleSize.isSome = true → ctx.access v ≠ .unsized → size = items.length) →
    (∀ e, Sampling.plan (ctx.access v) size ctx.sampleSize = .error e → E e) ∧
      ∀ plan, Sampling.plan (ctx.access v) size ctx.sampleSize = .ok plan → ctx.Feasible w E v items plan

end Context

namespace Judging.Rules

open Context

variable {w : World} {E : Fault → Prop} {slot slot' : String} {R : Relation} (hR : Rules w E slot slot' R)
  {α ι : Type} {F : Bindings → Prop}

include hR

theorem decided (steps : List Selector) {accepted : Bool} (h : accepted = true → ∀ b, F b) (v : Value) (t : TypeExpr)
    (reason : Reason) :
    R F (decide accepted (mismatch v t ⟨slot, steps⟩ reason)) (decide accepted (mismatch v t ⟨slot', steps⟩ reason)) := by
  cases accepted with
  | true => exact hR.accepted (h rfl)
  | false => exact hR.rejected steps v t reason

/-- Both look into the value in the same way, and go on with what they find. -/
theorem inspect_same {m : Judging α} {f f' : α → Judging Verdict} {Q : α → Prop} (hm : Inspects w E m Q)
    (hf : ∀ a, Q a → R F (f a) (f' a)) : R F (m >>= f) (m >>= f') := by
  obtain ⟨result, hgives, hresult, hfault⟩ := hm
  exact hR.inspect hgives hgives hfault fun a ha => hf a (hresult a ha)

theorem faulted {e : Fault} (he : E e) : R F (demand (.error e)) (demand (.error e)) := by
  rw [← bind_pure (demand (.error e))]
  refine hR.inspect (gives_demand _) (gives_demand _) (fun e' he' => ?_) fun _ h => by cases h
  cases he'
  exact he

omit hR in
theorem ite {c : Prop} [Decidable c] {m m' n n' : Judging Verdict} (hm : c → R F m m') (hn : ¬ c → R F n n') :
    R F (if c then m else n) (if c then m' else n') := by
  by_cases h : c
  · simp only [if_pos h]
    exact hm h
  · simp only [if_neg h]
    exact hn h

theorem all {xs : List ι} {f f' : ι → Judging Verdict} {F : ι → Bindings → Prop}
    (h : ∀ x ∈ xs, R (F x) (f x) (f' x)) (hlasting : ∀ x, Bindings.Lasting (F x)) :
    R (fun b => ∀ x ∈ xs, F x b) (allOf (xs.map f)) (allOf (xs.map f')) := by
  induction xs with
  | nil => exact hR.accepted fun _ _ hx => by cases hx
  | cons x xs ih =>
    have hrest := ih fun y hy => h y (List.mem_cons_of_mem x hy)
    exact hR.mono (hR.andThen (hlasting x) (h x List.mem_cons_self) hrest) fun b hb => List.forall_mem_cons.2 hb

/-- With the same receiver, base types are judged in the same way. -/
theorem judgeBase {ctx : Context} {cells : Nat → Prop} {v : Value} (hp : ctx.program.Separate) (hw : w.BuiltIn cells)
    (hv : v.BuiltIn cells) (hE : ctx.logging = true → ¬ (w.view v).Legible → E (.raised .tooManyDigits))
    (steps : List Selector) {kind : Base} (h : ctx.holdsBase kind v = true → ∀ b, F b) :
    R F (ctx.judgeBase kind v ⟨slot, steps⟩) (ctx.judgeBase kind v ⟨slot', steps⟩) := by
  have hreceiver : (kind = .selfType ∨ kind = .instanceType ∨ kind = .classType) →
      ctx.holdsBase kind v = ctx.receiver.all fun r => ctx.matchesReceiver r v kind := by
    rintro (rfl | rfl | rfl) <;> rfl
  cases kind with
  | top | void | boolish => exact hR.accepted (h rfl)
  | bot => exact hR.rejected steps v _ _
  | bool | nil => exact hR.decided steps h v _ _
  | selfType | instanceType | classType =>
    rw [hreceiver (by simp)] at h
    unfold Context.judgeBase
    dsimp only
    cases hr : ctx.receiver with
    | none =>
      exact hR.inspect_same (inspects_note hp hw hv .debug .classifier _ hE) fun _ _ => hR.accepted (h (by rw [hr]; rfl))
    | some r => exact hR.decided steps (fun hmatches => h (by rw [hr]; exact hmatches)) v _ _

/-! ## Samples -/

section Sampled

variable {ctx : Context} {k : Option Int} {r : Option Value} {v : Value} {items : List Value}
  {look look' : Nat → Value → Judging Verdict} {F : Value → Bindings → Prop} (hlasting : ∀ x, Bindings.Lasting (F x))
include hlasting

/-- Going through known elements looks at the wanted ones, as far as it goes. -/
theorem visit {wanted : Nat → Bool} {done done' : Judging Verdict}
    (hlook : ∀ i, ∀ x ∈ items, R (F x) (look i x) (look' i x)) (left i : Nat)
    (hdone : left ≤ items.length → R (fun _ => True) done done') :
    R (fun b => (∀ j, wanted j = true) → items.length < left → ∀ x ∈ items, F x b)
      (ctx.visit wanted look done left i (.known items))
      ((ctx.variant k r).visit wanted look' done' left i (.known items)) := by
  induction left generalizing i items with
  | zero => exact hR.mono (hdone (Nat.zero_le _)) fun b _ _ h => absurd h (Nat.not_lt_zero _)
  | succ left ih =>
    refine hR.inspect_same (inspects_sampling (answers_next_known items)) fun next hnext => ?_
    subst hnext
    cases items with
    | nil => exact hR.accepted fun _ _ _ x hx => by cases hx
    | cons x xs =>
      have hrest := ih (fun j y hy => hlook j y (List.mem_cons_of_mem x hy)) (i + 1)
        fun h => hdone (Nat.succ_le_succ h)
      have hfirst : R (fun b => wanted i = true → F x b) (if wanted i = true then look i x else pure .yes)
          (if wanted i = true then look' i x else pure .yes) :=
        ite (fun _ => hR.mono (hlook i x List.mem_cons_self) fun _ h _ => h)
          fun h => hR.accepted fun _ hwanted => absurd hwanted h
      refine hR.mono (hR.andThen (fun b b' hb h hwanted => hlasting x b b' hb (h hwanted)) hfirst hrest) ?_
      exact fun b hb hwanted hlt =>
        List.forall_mem_cons.2 ⟨hb.1 (hwanted i), hb.2 hwanted (Nat.lt_of_succ_lt_succ hlt)⟩

variable (hv : ctx.program.Yields w v items) (hlook : ∀ i, ∀ x ∈ items, R (F x) (look i x) (look' i x))
include hv hlook

theorem carryOut {plan : Sampling.Plan} (hplan : ctx.Feasible w E v items plan) :
    R (fun b => plan = .all → ∀ x ∈ items, F x b) (ctx.carryOut v look plan)
      ((ctx.variant k r).carryOut v look' plan) := by
  have hfeed : Inspects w E (ctx.sampling (ctx.feed v)) (· = .known items) := inspects_sampling ⟨_, hv.feed, rfl⟩
  have hsome (wanted : Nat → Bool) (left : Nat) : R (fun _ => True)
      (ctx.visit wanted look (pure .yes) left 0 (.known items))
      ((ctx.variant k r).visit wanted look' (pure .yes) left 0 (.known items)) :=
    hR.mono (hR.visit hlasting hlook left 0 fun _ => hR.accepted fun _ => trivial) fun _ _ => trivial
  cases plan with
  | all =>
    refine hR.inspect_same hfeed fun feed hknown => ?_
    subst hknown
    refine hR.world (f := fun w => ctx.visit (fun _ => true) look _ ((Feed.known items).bound _ w) 0 (.known items))
      (g := fun w => (ctx.variant k r).visit (fun _ => true) look' _ ((Feed.known items).bound _ w) 0 (.known items)) ?_
    refine hR.mono (hR.visit hlasting hlook _ 0 fun h => absurd h (Nat.not_succ_le_self _)) fun b hb _ => ?_
    exact hb (fun _ => rfl) (Nat.lt_succ_self _)
  | first limit =>
    refine hR.mono ?_ fun _ (_ : True) h => by cases h
    refine hR.inspect_same hfeed fun feed hknown => ?_
    subst hknown
    exact hR.inspect_same (inspects_demand hplan) fun count _ => hsome _ count
  | pickOut wanted =>
    refine hR.mono ?_ fun _ (_ : True) h => by cases h
    induction wanted with
    | nil => exact hR.accepted fun _ => trivial
    | cons i rest ih =>
      refine hR.inspect_same (hplan i List.mem_cons_self) fun x hx => ?_
      have hrest := ih fun j hj => hplan j (List.mem_cons_of_mem i hj)
      exact hR.mono (hR.andThen (hlasting x) (hlook i x (List.mem_of_getElem? hx)) hrest) fun _ _ => trivial
  | goThrough wanted =>
    refine hR.mono ?_ fun _ (_ : True) h => by cases h
    refine hR.inspect_same hfeed fun feed hknown => ?_
    subst hknown
    cases hlast : wanted.getLast? with
    | some last => exact hsome _ _
    | none =>
      refine hR.inspect_same (inspects_sampling (answers_next_known items)) fun next _ => ?_
      cases next with
      | none => exact hR.accepted fun _ => trivial
      | some _ => exact hR.faulted (hplan (List.getLast?_eq_none_iff.1 hlast))

/-- With the same sample size, the same elements are looked at: all of them, if there is no limit. -/
theorem sampled (hcell : v.isCell = false) (hplans : ctx.Plannable w E v items) :
    R (fun b => ctx.sampleSize = none → ∀ x ∈ items, F x b) (ctx.sampled v look)
      ((ctx.variant ctx.sampleSize r).sampled v look') := by
  have hplanned (size : Nat) (hsize : ctx.sampleSize.isSome = true → ctx.access v ≠ .unsized → size = items.length) :
      R (fun b => ctx.sampleSize = none → ∀ x ∈ items, F x b)
        (demand (Sampling.plan (ctx.access v) size ctx.sampleSize) >>= ctx.carryOut v look)
        (demand (Sampling.plan (ctx.access v) size ctx.sampleSize) >>=
          (ctx.variant ctx.sampleSize r).carryOut v look') := by
    obtain ⟨hfaults, hfeasible⟩ := hplans size hsize
    refine hR.inspect_same (inspects_demand hfaults) fun plan hplan => ?_
    refine hR.mono (hR.carryOut hlasting hv hlook (hfeasible plan hplan)) fun b hb hlimit => hb ?_
    rw [hlimit] at hplan
    cases hplan
    rfl
  refine hR.inspect_same (inspects_resolve v) fun u hu => ?_
  obtain rfl : u = v := hu.trans (World.resolve_of_isCell hcell)
  refine ite (fun _ => ?_) fun hunsized => ?_
  · exact hR.inspect_same (Q := (· = items.length)) (inspects_sampling ⟨_, hv.size, rfl⟩) fun size hsize =>
      hplanned size fun _ _ => hsize
  · refine hplanned 0 fun hsome hsized => absurd ?_ hunsized
    simpa using ⟨hsome, hsized⟩

end Sampled

end Judging.Rules

/-! ## Going down -/

open Judging

/-- A kind of built-in values that can be looked into, up to some faults, and the kind of what is in them.  Unless any
fault may come of it, they are nested less deep than the program may go. -/
structure Grounds (ctx : Context) (w : World) (cells : Nat → Prop) (E : Fault → Prop) (P P' : Value → Prop) : Prop where
  world : w.BuiltIn cells
  sized : ∃ sure n, (sure → n < ctx.program.depthLimit) ∧ (¬ sure → ∀ e, E e) ∧
    ∀ v, P v → Program.Sized cells w sure n v
  part : ∀ {v x : Value}, P v → v.Part x → P' x
  keysView : ∀ {kind : MappingKind} {entries : List (Value × Value)}, P (.mapping kind entries) →
    P (Program.keysView kind entries)
  shown : ∀ {v : Value}, P v → ctx.logging = true → ¬ (w.view v).Legible → E (.raised .tooManyDigits)
  key : ∀ {kind : MappingKind} {entries : List (Value × Value)}, P (.mapping kind entries) →
    ∀ key ∈ entries.map (·.1), ¬ (w.view key).Legible → E (.raised .tooManyDigits)

namespace Grounds

variable {ctx : Context} {w : World} {cells : Nat → Prop} {E : Fault → Prop} {P P' : Value → Prop}
  (hG : Grounds ctx w cells E P P')
include hG

theorem builtIn {v : Value} (hv : P v) : v.BuiltIn cells := by
  obtain ⟨_, _, _, _, hsized⟩ := hG.sized
  exact (hsized v hv).builtIn

variable (hp : ctx.program.Separate) {kind : MappingKind} {entries : List (Value × Value)}
  (hv : P (.mapping kind entries))
include hp hv

theorem contains (hkind : kind ≠ .toHash) (key : Key) :
    Inspects w E (running (ctx.program.contains ctx.program.invoke (.mapping kind entries) (.ofKey key)))
      (· = (ctx.program.entryNow? w entries (.ofKey key)).isSome) := by
  obtain ⟨sure, n, hn, hE, hsized⟩ := hG.sized
  exact inspects_settles
    (hp.settles_contains hG.world hn (hsized _ hv) (Program.sizedKey_ofKey key) hkind) hE

theorem item (hkind : kind ≠ .toHash) (key : Value) (hkey : key ∈ entries.map (·.1) ∨
      (∃ k, key = .ofKey k) ∧ (ctx.program.entryNow? w entries key).isSome = true) :
    Inspects w E (running (ctx.item (.mapping kind entries) key)) (ctx.program.entryNow? w entries key = some ·) := by
  obtain ⟨sure, n, hn, hE, hsized⟩ := hG.sized
  have hmapping := hsized _ hv
  obtain hmem | ⟨⟨k, rfl⟩, hsome⟩ := hkey
  · have hkey := hmapping.key hmem
    exact inspects_settles (hp.settles_item hG.world hn hmapping hkey hkind fun hsure =>
      hp.isSome_entryNow? hG.world hn hmapping hkey hsure hmem) hE
  · exact inspects_settles
      (hp.settles_item hG.world hn hmapping (Program.sizedKey_ofKey k) hkind fun _ => hsome) hE

variable {key : Value} (hkey : key ∈ entries.map (·.1))
include hkey

theorem isDeclared (fields : List (Field TypeExpr)) :
    Inspects w E (running (ctx.isDeclared fields key)) (· = ctx.declaresNow w fields key) := by
  obtain ⟨sure, n, hn, hE, hsized⟩ := hG.sized
  exact inspects_settles (Context.settles_isDeclared hp hG.world hn fields ((hsized _ hv).key hkey)) hE

/-- A key of a mapping is shown, unless an integer has too many digits. -/
theorem inspects_key : Inspects w E (running (ctx.shown key)) fun _ => True := by
  refine inspects_shows (hp.shows_shown hG.world ?_) (hG.key hv key hkey)
  obtain ⟨e, he, rfl⟩ := List.mem_map.1 hkey
  exact ((hG.builtIn hv).entries e he).1

end Grounds

/-- A kind of built-in values with all that is judged along with them: what they are now, and their parts. -/
structure Domain (w : World) (cells : Nat → Prop) (P : Value → Prop) : Prop where
  builtIn : ∀ {v : Value}, P v → v.BuiltIn cells
  resolve : ∀ {v : Value}, P v → P (w.resolve v)
  part : ∀ {v x : Value}, P v → v.Part x → P x
  keysView : ∀ {kind : MappingKind} {entries : List (Value × Value)}, P (.mapping kind entries) →
    P (Program.keysView kind entries)

/-- Built-in values alone. -/
theorem World.BuiltIn.domain {w : World} {cells : Nat → Prop} (hw : w.BuiltIn cells) :
    Domain w cells (·.BuiltIn cells) where
  builtIn hv := hv
  resolve hv := (hw.resolve hv).1
  part hv hx := hv.part hx
  keysView {kind entries} hv := by
    refine .sequence (by cases kind <;> decide) fun key hkey => ?_
    obtain ⟨e, he, rfl⟩ := List.mem_map.1 hkey
    exact (hv.entries e he).1

/-- They can be looked into, if any fault may come of it. -/
theorem Domain.grounds {ctx : Context} {w : World} {cells : Nat → Prop} {P : Value → Prop} (hD : Domain w cells P)
    (hw : w.BuiltIn cells) : Grounds ctx w cells (fun _ => True) P P where
  world := hw
  sized := ⟨False, 0, False.elim, fun _ _ => trivial, fun _ hv => ⟨hD.builtIn hv, False.elim⟩⟩
  part := hD.part
  keysView := hD.keysView
  shown _ _ _ := trivial
  key _ _ _ _ := trivial

/-- A relation between judgements that can be followed through a whole judgement of such values. -/
structure Descent (ctx ctx' : Context) (w : World) (E : Fault → Prop) (P : Value → Prop) (slot slot' : String)
    (R : Judging.Relation) : Prop extends Rules w E slot slot' R where
  union : ∀ {F : TypeExpr → Bindings → Prop} {judge judge' : Judge} {ts : List TypeExpr} {v : Value}
    {steps : List Selector}, (∀ t ∈ ts, R (F t) (judge v t ⟨slot, steps⟩) (judge' v t ⟨slot', steps⟩)) →
    R (fun b => ∃ t ∈ ts, F t b) (Context.judgeUnion judge ts v ⟨slot, steps⟩)
      (Context.judgeUnion judge' ts v ⟨slot', steps⟩)
  base : ∀ (kind : Base) {v : Value} (steps : List Selector), P v → v.isCell = false →
    R (fun b => ctx.Sat w b v (.base kind)) (ctx.judgeBase kind v ⟨slot, steps⟩) (ctx'.judgeBase kind v ⟨slot', steps⟩)
  typeVar : ∀ (name : String) {v : Value} (steps : List Selector), v.isCell = false →
    R (fun b => ctx.Sat w b v (.typeVar name)) (ctx.judgeTypeVar name v ⟨slot, steps⟩)
      (ctx'.judgeTypeVar name v ⟨slot', steps⟩)
  sampled : ∀ {F : Value → Bindings → Prop} {v : Value} {items : List Value} {look look' : Nat → Value → Judging Verdict},
    P v → v.isCollection = true → v.items? = some items → (∀ x, Bindings.Lasting (F x)) →
    (∀ i, ∀ x ∈ items, R (F x) (look i x) (look' i x)) →
    R (fun b => ∀ x ∈ items, F x b) (ctx.sampled v look) (ctx'.sampled v look')

namespace Context

variable {ctx : Context} {w : World}

/-- What judging the fields of a record establishes of one of them. -/
def FieldHolds (ctx : Context) (w : World) (entries : List (Value × Value)) (f : Field TypeExpr)
    (b : Bindings) : Prop :=
  (f.required = true → (ctx.program.entryNow? w entries (Value.ofKey f.key)).isSome = true) ∧
    ∀ x, ctx.program.entryNow? w entries (Value.ofKey f.key) = some x → ctx.Sat w b x f.type

theorem lasting_fieldHolds {entries : List (Value × Value)} (f : Field TypeExpr) :
    Bindings.Lasting (ctx.FieldHolds w entries f) :=
  fun _ _ hb h => ⟨h.1, fun x hx => (h.2 x hx).mono hb⟩

/-- What judging the undeclared keys of a record establishes of a key. -/
structure ExtraHolds (ctx : Context) (w : World) (entries : List (Value × Value)) (fields : List (Field TypeExpr))
    (extra : Option TypeExpr) (key : Value) (b : Bindings) : Prop where
  closed : extra = none → ctx.declaresNow w fields key = true
  present : ctx.declaresNow w fields key = false → (ctx.program.entryNow? w entries key).isSome = true
  type : ∀ t, extra = some t → ctx.declaresNow w fields key = false →
    ∀ x, ctx.program.entryNow? w entries key = some x → ctx.Sat w b x t

end Context

namespace Descent

variable {ctx : Context} {k : Option Int} {r : Option Value} {w : World} {cells : Nat → Prop} {E : Fault → Prop}
  {P P' : Value → Prop} {slot slot' : String} {R : Judging.Relation}
  (hd : Descent ctx (ctx.variant k r) w E P slot slot' R) {v : Value} (steps : List Selector)

/-! ### Checks that look at the value alone -/

section Checks

variable (hcell : v.isCell = false)
include hd hcell

theorem judgeSingleton (hname : ∀ e, ctx.registry.classOf name = .error e → E e) :
    R (fun b => ctx.Sat w b v (.singleton name)) (ctx.judgeSingleton name v ⟨slot, steps⟩)
      ((ctx.variant k r).judgeSingleton name v ⟨slot', steps⟩) := by
  refine hd.inspect_same (Context.inspects_target hname) fun target htarget => ?_
  have hsat : ctx.isSingletonOf target v = true → ∀ b, ctx.Sat w b v (.singleton name) :=
    fun h b => .singleton htarget (by rwa [World.resolve_of_isCell hcell])
  cases target with
  | ofModule home => exact hd.decided steps hsat v _ _
  | ofClass c => exact hd.decided steps hsat v _ _

theorem judgeProc (params : Params TypeExpr) (result : TypeExpr) (block : Option (Block TypeExpr)) :
    R (fun b => ctx.Sat w b v (.proc params result block))
      (ctx.judgeProc (.proc params result block) params v ⟨slot, steps⟩)
      ((ctx.variant k r).judgeProc (.proc params result block) params v ⟨slot', steps⟩) := by
  refine Rules.ite (fun _ => hd.rejected steps v _ _) fun hcallable => ?_
  refine hd.decided steps (fun h b => .proc ?_) v _ _
  rw [World.resolve_of_isCell hcell, Context.holdsProc, h, Bool.and_true]
  simpa using hcallable

theorem judgeInterface (hp : ctx.program.Separate) (hv : v.BuiltIn cells) (name : String)
    (methods : List (Capability TypeExpr)) :
    R (fun b => ctx.Sat w b v (.interface name methods)) (ctx.judgeInterface name methods v ⟨slot, steps⟩)
      ((ctx.variant k r).judgeInterface name methods v ⟨slot', steps⟩) := by
  refine hd.mono (hd.all (F := fun c _ => ctx.offers w v c = true) (fun c _ => ?_) fun c b b' _ h => h)
    fun b h => .interface ?_
  · refine hd.inspect_same (Context.inspects_lacking? hp hv hcell c) fun reason hreason => ?_
    cases reason with
    | none => exact hd.accepted fun _ => hreason rfl
    | some reason => exact hd.rejected steps v _ reason
  · rwa [World.resolve_of_isCell hcell]

end Checks

/-! ### Checks of parts -/

/-- The relation holds of the judgement of a value against a type, wherever it stands. -/
def Reaches (ctx : Context) (w : World) (slot slot' : String) (R : Judging.Relation) (judge judge' : Judge) (v : Value)
    (t : TypeExpr) : Prop :=
  ∀ steps, R (fun b => ctx.Sat w b v t) (judge v t ⟨slot, steps⟩) (judge' v t ⟨slot', steps⟩)

section Parts

variable {judge judge' : Judge}
include hd

/-- Known elements are judged against the types in their places. -/
theorem judgeElements {items : List Value} {ts : List TypeExpr}
    (hjudge : ∀ x ∈ items, ∀ t ∈ ts, Reaches ctx w slot slot' R judge judge' x t) (i : Nat) :
    R (fun b => ∀ e ∈ items.zip ts, ctx.Sat w b e.1 e.2)
      (ctx.judgeElements judge ⟨slot, steps⟩ i (.known items) ts)
      ((ctx.variant k r).judgeElements judge' ⟨slot', steps⟩ i (.known items) ts) := by
  induction ts generalizing items i with
  | nil =>
    refine hd.inspect_same (inspects_answers (Context.answers_next_known items)) fun _ _ => hd.accepted fun b e he => ?_
    rw [List.zip_nil_right] at he
    cases he
  | cons t ts ih =>
    refine hd.inspect_same (inspects_answers (Context.answers_next_known items)) fun next hnext => ?_
    subst hnext
    cases items with
    | nil => exact hd.accepted fun b e he => by cases he
    | cons x xs =>
      have hrest := ih (fun y hy u hu => hjudge y (List.mem_cons_of_mem x hy) u (List.mem_cons_of_mem t hu)) (i + 1)
      refine hd.mono (hd.andThen (ctx.lasting_sat w x t) (hjudge x List.mem_cons_self t List.mem_cons_self _) hrest) ?_
      exact fun b hb => List.forall_mem_cons.2 hb

variable (hp : ctx.program.Separate) (hG : Grounds ctx w cells E P P')
include hp hG

theorem judgeTuple (hv : P v) (hcell : v.isCell = false) {ts : List TypeExpr}
    (hjudge : ∀ x, P' x → ∀ t ∈ ts, Reaches ctx w slot slot' R judge judge' x t) :
    R (fun b => ctx.Sat w b v (.tuple ts)) (ctx.judgeTuple judge ts v ⟨slot, steps⟩)
      ((ctx.variant k r).judgeTuple judge' ts v ⟨slot', steps⟩) := by
  refine Rules.ite (c := (!ctx.isInstanceOfAny v [.builtin "tuple", .builtin "list"]) = true)
    (fun _ => hd.rejected steps v _ _) fun hinstance => ?_
  have hinstance : ctx.isInstanceOfAny v [.builtin "tuple", .builtin "list"] = true := by simpa using hinstance
  have hany : ctx.program.isInstance v (.builtin "tuple") = true
      ∨ ctx.program.isInstance v (.builtin "list") = true := by
    simpa [Context.isInstanceOfAny, Context.isInstance] using hinstance
  obtain ⟨kind, items, rfl, -⟩ := hp.eq_sequence (hG.builtIn hv) hcell hany
  have hyields : ctx.program.Yields w (.sequence kind items) items := hp.yields (hG.builtIn hv) rfl rfl
  have hsize : Inspects w E (running (ctx.size (.sequence kind items))) (· = items.length) :=
    inspects_answers ⟨_, hyields.size, rfl⟩
  refine hd.inspect_same hsize fun size hlength => ?_
  subst hlength
  refine Rules.ite (fun _ => hd.inspect_same hsize fun _ _ => hd.rejected steps _ _ _) fun hlength => ?_
  refine hd.inspect_same (Q := (· = .known items)) (inspects_answers ⟨_, hyields.feed, rfl⟩) fun feed hknown => ?_
  subst hknown
  refine hd.mono (hd.judgeElements steps (fun x hx t ht => hjudge x (hG.part hv (.element rfl rfl hx)) t ht) 0) fun b h => ?_
  exact .tuple hinstance rfl (by simpa using hlength) h

section Mapping

variable {kind : MappingKind} {entries : List (Value × Value)} (hv : P (.mapping kind entries))
  (hkind : kind ≠ .toHash)
include hv hkind

theorem judgeFields (t : TypeExpr) {fields : List (Field TypeExpr)}
    (hjudge : ∀ x, P' x → ∀ f ∈ fields, Reaches ctx w slot slot' R judge judge' x f.type) :
    R (fun b => ∀ f ∈ fields, ctx.FieldHolds w entries f b)
      (ctx.judgeFields judge (.mapping kind entries) ⟨slot, steps⟩
        (Context.mismatch (.mapping kind entries) t ⟨slot, steps⟩) fields)
      ((ctx.variant k r).judgeFields judge' (.mapping kind entries) ⟨slot', steps⟩
        (Context.mismatch (.mapping kind entries) t ⟨slot', steps⟩) fields) := by
  induction fields with
  | nil => exact hd.accepted fun _ _ hf => by cases hf
  | cons f fs ih =>
    have hrest := ih fun x hx g hg => hjudge x hx g (List.mem_cons_of_mem f hg)
    refine hd.inspect_same (hG.contains hp hv hkind f.key) fun present hpresent => ?_
    refine Rules.ite (fun hyes => ?_) fun habsent => ?_
    · rw [hpresent] at hyes
      refine hd.inspect_same (hG.item hp hv hkind _ (.inr ⟨⟨f.key, rfl⟩, hyes⟩)) fun x hx => ?_
      obtain ⟨e, he, rfl⟩ := Program.mem_of_entryNow? hx
      refine hd.mono (hd.andThen (ctx.lasting_sat w e.2 f.type)
        (hjudge e.2 (hG.part hv (.value he)) f List.mem_cons_self _) hrest) fun b hb => List.forall_mem_cons.2 ⟨?_, hb.2⟩
      refine ⟨fun _ => hyes, fun y hy => ?_⟩
      cases hx.symm.trans hy
      exact hb.1
    · rw [hpresent, Bool.not_eq_true, Option.isSome_eq_false_iff, Option.isNone_iff_eq_none] at habsent
      refine Rules.ite (fun _ => hd.rejected steps _ _ _) fun hoptional => ?_
      refine hd.mono hrest fun b hb => List.forall_mem_cons.2 ⟨⟨fun h => absurd h hoptional, fun y hy => ?_⟩, hb⟩
      cases habsent.symm.trans hy

/-- Keys of the mapping are judged, if there is fuel for all of them. -/
theorem judgeOthers (t : TypeExpr) (fields : List (Field TypeExpr)) {extra : Option TypeExpr}
    (hjudge : ∀ x, P' x → ∀ u, extra = some u → Reaches ctx w slot slot' R judge judge' x u) {keys : List Value}
    (hkeys : keys ⊆ entries.map (·.1)) (fuel : Nat) (hfuel : keys.length < fuel) :
    R (fun b => ∀ key ∈ keys, ctx.ExtraHolds w entries fields extra key b)
      (ctx.judgeOthers judge fields extra (.mapping kind entries) ⟨slot, steps⟩
        (Context.mismatch (.mapping kind entries) t ⟨slot, steps⟩) fuel (.known keys))
      ((ctx.variant k r).judgeOthers judge' fields extra (.mapping kind entries) ⟨slot', steps⟩
        (Context.mismatch (.mapping kind entries) t ⟨slot', steps⟩) fuel (.known keys)) := by
  induction fuel generalizing keys with
  | zero => exact absurd hfuel (Nat.not_lt_zero _)
  | succ fuel ih =>
    refine hd.inspect_same (inspects_answers (Context.answers_next_known keys)) fun next hnext => ?_
    subst hnext
    cases keys with
    | nil => exact hd.accepted fun _ _ hkey => by cases hkey
    | cons key keys =>
      have hmem : key ∈ entries.map (·.1) := hkeys List.mem_cons_self
      have hrest := ih (List.subset_of_cons_subset hkeys) (Nat.lt_of_succ_lt_succ hfuel)
      have hshown := hG.inspects_key hp hv hmem
      refine hd.inspect_same (hG.isDeclared hp hv hmem fields) fun declared hdeclared => ?_
      subst hdeclared
      refine Rules.ite (fun h => ?_) fun h => ?_
      · refine hd.mono hrest fun b hb => List.forall_mem_cons.2 ⟨⟨fun _ => h, fun h' => ?_, fun _ _ h' => ?_⟩, hb⟩
        all_goals cases h.symm.trans h'
      · cases extra with
        | none => exact hd.inspect_same hshown fun _ _ => hd.rejected steps _ _ _
        | some u =>
          refine hd.inspect_same (hG.item hp hv hkind key (.inl hmem)) fun x hx => hd.inspect_same hshown fun shown _ => ?_
          obtain ⟨e, he, rfl⟩ := Program.mem_of_entryNow? hx
          refine hd.mono (hd.andThen (ctx.lasting_sat w e.2 u) (hjudge e.2 (hG.part hv (.value he)) u rfl _) hrest)
            fun b hb => List.forall_mem_cons.2 ⟨⟨fun h' => (by cases h'), fun _ => by rw [hx]; rfl, ?_⟩, hb.2⟩
          intro u' hu' _ y hy
          cases hx.symm.trans hy
          cases hu'
          exact hb.1

theorem judgeEntries {first second : TypeExpr}
    (hfirst : ∀ x, P' x → Reaches ctx w slot slot' R judge judge' x first)
    (hsecond : ∀ x, P' x → Reaches ctx w slot slot' R judge judge' x second) :
    R (fun b => ∀ key ∈ entries.map (·.1), ctx.Sat w b key first ∧ (ctx.program.entryNow? w entries key).isSome = true
        ∧ ∀ x, ctx.program.entryNow? w entries key = some x → ctx.Sat w b x second)
      (ctx.judgeEntries judge first second (.mapping kind entries) ⟨slot, steps⟩)
      ((ctx.variant k r).judgeEntries judge' first second (.mapping kind entries) ⟨slot', steps⟩) := by
  refine hd.inspect_same (Q := (· = Program.keysView kind entries))
    (inspects_answers ⟨_, hp.run_keysOf (hG.builtIn hv) hkind, rfl⟩) fun view hview => ?_
  subst hview
  refine hd.sampled (hG.keysView hv) rfl rfl ?_ fun _ key hmem => ?_
  · exact fun key b b' hb h => ⟨h.1.mono hb, h.2.1, fun x hx => (h.2.2 x hx).mono hb⟩
  have hkey : P' key := by
    obtain ⟨e, he, rfl⟩ := List.mem_map.1 hmem
    exact hG.part hv (.key he)
  have hshown := hG.inspects_key hp hv hmem
  refine hd.inspect_same hshown fun _ _ => hd.andThen (ctx.lasting_sat w key first) (hfirst key hkey _) ?_
  refine hd.inspect_same (hG.item hp hv hkind key (.inl hmem)) fun x hx => hd.inspect_same hshown fun _ _ => ?_
  obtain ⟨e, he, rfl⟩ := Program.mem_of_entryNow? hx
  refine hd.mono (hsecond e.2 (hG.part hv (.value he)) _) fun b hsat => ⟨by rw [hx]; rfl, fun y hy => ?_⟩
  cases hx.symm.trans hy
  exact hsat

end Mapping

theorem judgeRecord (hv : P v) (hcell : v.isCell = false) {fields : List (Field TypeExpr)} {extra : Option TypeExpr}
    (hfields : ∀ x, P' x → ∀ f ∈ fields, Reaches ctx w slot slot' R judge judge' x f.type)
    (hextra : ∀ x, P' x → ∀ u, extra = some u → Reaches ctx w slot slot' R judge judge' x u) :
    R (fun b => ctx.Sat w b v (.record fields extra)) (ctx.judgeRecord judge fields extra v ⟨slot, steps⟩)
      ((ctx.variant k r).judgeRecord judge' fields extra v ⟨slot', steps⟩) := by
  refine Rules.ite (c := (!ctx.isContainer v "Mapping") = true) (fun _ => hd.rejected steps v _ _) fun hinstance => ?_
  have hmapping : ctx.isContainer v "Mapping" = true := by simpa using hinstance
  obtain ⟨kind, entries, rfl, hkind⟩ := hp.eq_mapping (hG.builtIn hv) hcell hmapping
  have hitems : (Value.mapping kind entries).items? = some (entries.map (·.1)) := by
    cases kind with
    | toHash => exact absurd rfl hkind
    | _ => rfl
  refine hd.mono (hd.andThen (G := fun b => ∀ key ∈ entries.map (·.1), ctx.ExtraHolds w entries fields extra key b) ?_
    (hd.judgeFields steps hp hG hv hkind _ hfields) ?_) fun b hb => ?_
  · exact fun b b' hb h f hf => Context.lasting_fieldHolds f b b' hb (h f hf)
  · refine hd.inspect_same (Q := (· = .known (entries.map (·.1))))
      (inspects_answers ⟨_, (hp.yields (hG.builtIn hv) rfl hitems).feed, rfl⟩) fun feed hknown => ?_
    subst hknown
    exact hd.world
      (f := fun w => ctx.judgeOthers judge fields extra (.mapping kind entries) _ _ ((Feed.known _).bound _ w) (.known _))
      (g := fun w => (ctx.variant k r).judgeOthers judge' fields extra (.mapping kind entries) _ _
        ((Feed.known _).bound _ w) (.known _))
      (hd.judgeOthers steps hp hG hv hkind _ fields hextra (List.Subset.refl _) _ (Nat.lt_succ_self _))
  · have hother := fun e (he : e ∈ entries) => hb.2 e.1 (List.mem_map_of_mem he)
    exact .record hmapping rfl (fun f hf => (hb.1 f hf).1) (fun f hf => (hb.1 f hf).2)
      (fun hnone e he => (hother e he).closed hnone) (fun e he => (hother e he).present)
      fun t ht e he => (hother e he).type t ht

/-- What is asked of the members of an instance of a class with arguments. -/
theorem judgeMembers (hv : P v) (hcell : v.isCell = false) {c : ClassId} (halias : ctx.registry.isAlias name = false)
    (htarget : ctx.registry.classOf name = .ok (.ofClass c)) (hinstance : ctx.isInstance v c = true)
    {first : TypeExpr} {others : List TypeExpr} (hfirst : ∀ x, P' x → Reaches ctx w slot slot' R judge judge' x first)
    (hothers : ∀ x, P' x → ∀ u ∈ others, Reaches ctx w slot slot' R judge judge' x u) :
    R (fun b => ctx.Sat w b v (.classRef name (first :: others)))
      (ctx.judgeMembers judge first others v ⟨slot, steps⟩)
      ((ctx.variant k r).judgeMembers judge' first others v ⟨slot', steps⟩) := by
  have hresolve : w.resolve v = v := World.resolve_of_isCell hcell
  unfold Context.judgeMembers
  have hsame : (ctx.variant k r).isContainer v "Mapping" = ctx.isContainer v "Mapping" := rfl
  rw [hsame]
  split
  · -- A mapping, and types for its keys and values.
    rename_i second hmapping hsecond
    obtain ⟨kind, entries, rfl, hkind⟩ := hp.eq_mapping (hG.builtIn hv) hcell hmapping
    obtain ⟨rest, rfl⟩ : ∃ rest, others = second :: rest := List.head?_eq_some_iff.1 hsecond
    refine hd.mono (hd.judgeEntries steps hp hG hv hkind hfirst fun x hx => hothers x hx second List.mem_cons_self) ?_
    intro b hb
    have hentry := fun e (he : e ∈ entries) => hb e.1 (List.mem_map_of_mem he)
    exact .entries halias htarget hinstance hmapping rfl (fun e he => (hentry e he).1) (fun e he => (hentry e he).2.1)
      fun e he => (hentry e he).2.2
  · rename_i hother
    have hmapping : others = [] ∨ ctx.isContainer (w.resolve v) "Mapping" = false := by
      rw [hresolve]
      cases others with
      | nil => exact .inl rfl
      | cons second rest => exact .inr (Bool.eq_false_iff.2 fun h => hother second h rfl)
    rw [(hG.builtIn hv).core_eq]
    split
    · -- A range is judged by its bounds.
      refine hd.mono (hd.andThen (ctx.lasting_sat w _ first) (hfirst _ (hG.part hv .start) _)
        (hd.andThen (ctx.lasting_sat w _ first) (hfirst _ (hG.part hv .stop) _) (hd.accepted fun _ => trivial)))
        fun b hb => ?_
      exact .bounds halias htarget hinstance rfl hb.1 hb.2.1
    · exact hd.accepted fun b => .nominal halias htarget hinstance (.inr rfl)
    · exact hd.accepted fun b => .nominal halias htarget hinstance (.inr rfl)
    · exact hd.accepted fun b => .nominal halias htarget hinstance (.inr rfl)
    · rename_i hrange hstr hbytes hbytearray
      have hnominal : ctx.isNominal v = !(ctx.isContainer v "Iterable" && !ctx.isContainer v "Iterator") := by
        unfold Context.isNominal
        split
        · exact absurd rfl (hstr _)
        · exact absurd rfl (hbytes _)
        · exact absurd rfl (hbytearray _)
        · rfl
      refine Rules.ite (c := (ctx.isContainer v "Iterable" && !ctx.isContainer v "Iterator") = true)
        (fun hiterable => ?_) fun hplain => ?_
      · have hparts : ctx.isContainer v "Iterable" = true ∧ ctx.isContainer v "Iterator" = false := by
          simpa using hiterable
        obtain ⟨honce, -, hsome⟩ := hp.items?_of_iterable (hG.builtIn hv) hcell hparts.1 hparts.2
        obtain ⟨items, hitems⟩ := Option.isSome_iff_exists.1 hsome
        have hcollection := Value.isCollection_of_items hitems honce hrange hstr hbytes hbytearray
        refine hd.mono (hd.sampled (F := fun x b => ctx.Sat w b x first) hv hcollection hitems
          (fun x => ctx.lasting_sat w x first)
          fun i x hx => hfirst x (hG.part hv (.element hcollection hitems hx)) _) fun b h => ?_
        refine .elements halias htarget (by rwa [hresolve]) ?_ ?_ hmapping (by rwa [hresolve]) h
        · rw [hresolve, hnominal, hiterable]
          rfl
        · rw [hresolve]
          exact fun start stop step h => hrange start stop step h
      · -- The records name the slots, which may differ.
        refine hd.inspect (ctx.gives_note_text _ _ _) ((ctx.variant k r).gives_note_text _ _ _)
          (fun e he => (by cases he)) fun _ _ => hd.accepted fun b => .nominal halias htarget (by rwa [hresolve]) (.inr ?_)
        rw [hresolve, hnominal, Bool.eq_false_iff.2 hplain]
        rfl

section Whole

variable {t : TypeExpr} (hv : P v) (hcell : v.isCell = false) (hnames : ∀ e, t.Dangles ctx.registry e → E e)
  (hsame : ∀ u, t.Facet ctx.registry u → Reaches ctx w slot slot' R judge judge' v u)
  (hparts : ∀ u, t.Part ctx.registry u → ∀ x, P' x → Reaches ctx w slot slot' R judge judge' x u)
include hv hcell hnames hsame hparts

/-- A class or alias: the value is judged against what the alias stands for, its members against the arguments of the
class. -/
theorem judgeClassRef {args : List TypeExpr} (ht : t = .classRef name args) :
    R (fun b => ctx.Sat w b v t) (ctx.judgeClassRef judge name args v ⟨slot, steps⟩)
      ((ctx.variant k r).judgeClassRef judge' name args v ⟨slot', steps⟩) := by
  subst ht
  have hresolve : w.resolve v = v := World.resolve_of_isCell hcell
  refine Rules.ite (fun halias => ?_) fun halias => ?_
  · refine hd.inspect_same (inspects_happen _) fun _ _ => ?_
    refine hd.inspect_same (inspects_demand fun e he => hnames e (.expansion halias he)) fun u hu => ?_
    exact hd.mono (hsame u (.expansion halias hu) steps) fun b h => .expansion halias hu h
  · have halias : ctx.registry.isAlias name = false := Bool.eq_false_iff.2 halias
    refine hd.inspect_same (Context.inspects_target fun e he => hnames e (.className halias he)) fun target htarget => ?_
    cases target with
    | ofModule home => exact hd.decided steps (fun h b => .named halias htarget (by rwa [hresolve])) v _ _
    | ofClass c =>
      refine Rules.ite (c := (!ctx.isInstance v c) = true) (fun _ => hd.rejected steps v _ _) fun hinstance => ?_
      have hinstance : ctx.isInstance v c = true := by simpa using hinstance
      cases args with
      | nil => exact hd.accepted fun b => .nominal halias htarget (by rwa [hresolve]) (.inl rfl)
      | cons first others =>
        exact hd.judgeMembers steps hp hG hv hcell halias htarget hinstance
          (hparts first (.argument halias List.mem_cons_self))
          fun x hx u hu => hparts u (.argument halias (List.mem_cons_of_mem first hu)) x hx

/-- The relation holds of a judgement, if it holds of the judgements of the value against the facets of the type and of
those of what is in the value against its parts. -/
theorem judgeWith :
    R (fun b => ctx.Sat w b v t) (ctx.judgeWith judge v t ⟨slot, steps⟩)
      ((ctx.variant k r).judgeWith judge' v t ⟨slot', steps⟩) := by
  have hresolve : w.resolve v = v := World.resolve_of_isCell hcell
  cases t with
  | untyped => exact hd.accepted fun _ => .untyped
  | base kind => exact hd.base kind steps hv hcell
  | classRef name args => exact hd.judgeClassRef steps hp hG hv hcell hnames hsame hparts rfl
  | singleton name => exact hd.judgeSingleton steps hcell fun e he => hnames e (.singleton he)
  | interface name methods => exact hd.judgeInterface steps hcell hp (hG.builtIn hv) name methods
  | union ts =>
    refine hd.mono (hd.union fun u hu => hsame u (.alternative hu) steps) fun b h => ?_
    obtain ⟨u, hu, hsat⟩ := h
    exact .union hu hsat
  | intersection ts =>
    exact hd.mono (hd.all (fun u hu => hsame u (.conjunct hu) steps) fun u => ctx.lasting_sat w v u)
      fun b h => .intersection h
  | tuple ts => exact hd.judgeTuple steps hp hG hv hcell fun x hx u hu => hparts u (.element hu) x hx
  | record fields extra =>
    refine hd.judgeRecord steps hp hG hv hcell (fun x hx f hf => hparts f.type (.field hf) x hx) fun x hx u hu => ?_
    subst hu
    exact hparts u .extra x hx
  | literal l => exact hd.decided steps (fun h b => .literal (by rwa [hresolve])) v _ _
  | typeVar name => exact hd.typeVar name steps hcell
  | optional inner =>
    exact Rules.ite (fun hnull => hd.accepted fun b => .absent (by rwa [hresolve]))
      fun _ => hd.mono (hsame inner .inner steps) fun b h => Context.Sat.present h
  | proc params result block => exact hd.judgeProc steps hcell params result block

end Whole

/-- The relation holds of the judgement of a value as it stands now, doubles included. -/
theorem judgeUnlessDouble {t : TypeExpr} (hv : P (w.resolve v)) (hbuiltIn : v.BuiltIn cells)
    (hdoubles : ∀ e, ctx.isAmong (w.resolve v) ctx.doubles = .error e → E e)
    (hnames : ∀ e, t.Dangles ctx.registry e → E e)
    (hsame : ∀ u, t.Facet ctx.registry u → Reaches ctx w slot slot' R judge judge' (w.resolve v) u)
    (hparts : ∀ u, t.Part ctx.registry u → ∀ x, P' x → Reaches ctx w slot slot' R judge judge' x u) :
    R (fun b => ctx.Sat w b v t) (ctx.judgeUnlessDouble judge v t ⟨slot, steps⟩)
      ((ctx.variant k r).judgeUnlessDouble judge' v t ⟨slot', steps⟩) := by
  have hcell := (hG.world.resolve hbuiltIn).2
  refine hd.inspect_same (inspects_resolve v) fun u hu => ?_
  subst hu
  refine hd.inspect (gives_demand _) (ctx.isAmong_variant k r _ _ ▸ gives_demand _) hdoubles fun double hdouble => ?_
  refine Rules.ite (fun hyes => ?_) fun _ => ?_
  · subst hyes
    exact hd.inspect_same (Context.inspects_note hp hG.world (hG.builtIn hv) .info .classifier _ (hG.shown hv))
      fun _ _ => hd.accepted fun b => .double hdouble
  · exact hd.mono (hd.judgeWith steps hp hG hv hcell hnames hsame hparts) fun b h =>
      h.of_resolve_eq (World.resolve_of_isCell hcell)

end Parts

end Descent

end Conformance
