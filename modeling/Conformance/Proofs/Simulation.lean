import Mathlib
import Conformance.Proofs.Descent
import Conformance.Proofs.Succession

/-!
# Two judgements side by side

A built-in value is judged twice against the same type and in the same state of the program, but from other bindings, in
another slot, for another receiver or with another sample size.  `Paired` says of two computations that they leave the
program as it is and keep to what is asked of the bindings of each, and that what they come to is comparable.  More may
be known of the value than that it is built in, if it is known of all that is judged along with it (`Domain`).

Main statement: `Comparison.paired_judge`.  If outcomes are compared in a way that goes with demands and alternatives,
and the two judgements are comparable where they may differ, they are comparable as a whole.
-/

namespace Conformance

open Run

namespace Judging

variable {α : Type} {w : World}

/-! ## Pairs -/

/-- The computation leaves the program as it is, and keeps to what is asked of the bindings. -/
def Keeps (w : World) (I : Option Bindings → Prop) (m : Judging Verdict) : Prop :=
  ∀ s, s.world = w → I s.bindings → (m.run.run s).2.world = w ∧ I (m.run.run s).2.bindings

/-- Both computations keep to what is asked of them, and what they come to from the same state of the program is
comparable. -/
structure Paired (w : World) (I I' : Option Bindings → Prop) (agree : Outcome → Outcome → Prop)
    (m m' : Judging Verdict) : Prop where
  left : Keeps w I m
  right : Keeps w I' m'
  outcomes : ∀ s s' : Scene, s.world = w → I s.bindings → s'.world = w → I' s'.bindings →
    agree (m.run.run s).1 (m'.run.run s').1

section Keeps

variable {I : Option Bindings → Prop}

theorem keeps_pure (verdict : Verdict) : Keeps w I (pure verdict) := fun _ hs hb => ⟨hs, hb⟩

theorem Gives.keeps_bind {m : Judging α} {f : α → Judging Verdict} {result : Except Fault α} (hm : Gives w m result)
    (hf : ∀ a, result = .ok a → Keeps w I (f a)) : Keeps w I (m >>= f) := by
  intro s hs hb
  obtain ⟨events, hrun⟩ := hm s hs
  rw [run_bind, hrun]
  cases result with
  | error e => exact ⟨hs, hb⟩
  | ok a => exact hf a rfl { s with events } hs hb

theorem keeps_world {f : World → Judging Verdict} (h : Keeps w I (f w)) :
    Keeps w I (get >>= fun s => f s.world) := by
  rintro s rfl hb
  exact h s rfl hb

theorem Keeps.andThen {m n : Judging Verdict} (hm : Keeps w I m) (hn : Keeps w I n) : Keeps w I (m.andThen n) := by
  intro s hs hb
  obtain ⟨hworld, hbindings⟩ := hm s hs hb
  rw [run_andThen]
  generalize m.run.run s = run at hworld hbindings ⊢
  obtain ⟨e | verdict, after⟩ := run
  · exact ⟨hworld, hbindings⟩
  · dsimp only
    split
    · exact hn after hworld hbindings
    · exact ⟨hworld, hbindings⟩

theorem keeps_firstOf {ms : List (Judging Verdict)} (hms : ∀ m ∈ ms, Keeps w I m)
    (rejected : List Mismatch → Mismatch) (failures : List Mismatch) : Keeps w I (firstOf rejected failures ms) := by
  induction ms generalizing failures with
  | nil => exact keeps_pure _
  | cons m ms ih =>
    intro s hs hb
    obtain ⟨hworld, hbindings⟩ := hms m List.mem_cons_self s hs hb
    rw [run_firstOf_cons]
    generalize m.run.run s = run at hworld hbindings ⊢
    obtain ⟨e | verdict, after⟩ := run
    · exact ⟨hworld, hb⟩
    · cases verdict with
      | no reason =>
        exact ih (fun n hn => hms n (List.mem_cons_of_mem _ hn)) _ { after with bindings := s.bindings } hworld hb
      | yes => exact ⟨hworld, hbindings⟩
      | maybe name => exact ⟨hworld, hbindings⟩

theorem Keeps.startingFrom {m : Judging Verdict} (hm : Keeps w I m) {b : Option Bindings} (hb : I b) {s : Scene}
    (hs : s.world = w) : ((m.startingFrom b).run.run s).2.world = w :=
  (hm { s with bindings := b } hs hb).1

end Keeps

variable {I I' : Option Bindings → Prop} {agree : Outcome → Outcome → Prop}

/-- Alternatives in turn come to comparable outcomes, one by one. -/
theorem forall₂_inTurn {ι : Type} {xs : List ι} {f f' : ι → Judging Verdict}
    (h : ∀ x ∈ xs, Paired w I I' agree (f x) (f' x)) {b b' : Option Bindings} (hb : I b) (hb' : I' b') (s s' : Scene)
    (hs : s.world = w) (hs' : s'.world = w) :
    List.Forall₂ agree ((inTurn ((xs.map f).map (startingFrom b)) s).map (·.1))
      ((inTurn ((xs.map f').map (startingFrom b')) s').map (·.1)) := by
  induction xs generalizing s s' with
  | nil => exact .nil
  | cons x xs ih =>
    have hx := h x List.mem_cons_self
    refine .cons (hx.outcomes { s with bindings := b } { s' with bindings := b' } hs hb hs' hb') ?_
    exact ih (fun y hy => h y (List.mem_cons_of_mem _ hy)) _ _ (hx.left.startingFrom hb hs)
      (hx.right.startingFrom hb' hs')

end Judging

/-! ## Ways to compare -/

/-- The outcome of a union, from those of its alternatives. -/
def Context.unionOutcome (ts : List TypeExpr) (v : Value) (path : Path) (outcomes : List Outcome) : Outcome :=
  Outcome.firstOf (fun failures =>
    { mismatch v (.union ts) path (.noAlternative (failures.map (·.reason))) with
      conflict := failures.findSome? (·.conflict) }) [] outcomes

/-- A way to compare outcomes of judgements in two slots that goes with demands and alternatives. -/
structure Compatible (slot slot' : String) (agree : Outcome → Outcome → Prop) : Prop where
  accept : agree (.ok .yes) (.ok .yes)
  reject : ∀ (v : Value) (t : TypeExpr) (steps : List Selector) (reason : Reason),
    agree (.ok (.no (Context.mismatch v t ⟨slot, steps⟩ reason)))
      (.ok (.no (Context.mismatch v t ⟨slot', steps⟩ reason)))
  fault : ∀ e : Fault, agree (.error e) (.error e)
  andThen : ∀ {r r' q q' : Outcome}, agree r r' → agree q q' → agree (r.andThen q) (r'.andThen q')
  union : ∀ (ts : List TypeExpr) (v : Value) (steps : List Selector) {rs rs' : List Outcome}, List.Forall₂ agree rs rs' →
    agree (Context.unionOutcome ts v ⟨slot, steps⟩ rs) (Context.unionOutcome ts v ⟨slot', steps⟩ rs')

namespace Compatible

open Judging

variable {slot slot' : String} {agree : Outcome → Outcome → Prop} (hc : Compatible slot slot' agree) {w : World}
  {I I' : Option Bindings → Prop}

include hc

theorem rules (w : World) (I I' : Option Bindings → Prop) :
    Rules w (fun _ => True) slot slot' fun _ => Paired w I I' agree where
  mono h _ := h
  accepted _ := ⟨keeps_pure _, keeps_pure _, fun _ _ _ _ _ _ => hc.accept⟩
  rejected steps v t reason := ⟨keeps_pure _, keeps_pure _, fun _ _ _ _ _ _ => hc.reject v t steps reason⟩
  inspect {α F m m' f f' result} hm hm' _ hf := by
    refine ⟨hm.keeps_bind fun a ha => (hf a ha).left, hm'.keeps_bind fun a ha => (hf a ha).right, ?_⟩
    intro s s' hs hb hs' hb'
    obtain ⟨events, hrun⟩ := hm s hs
    obtain ⟨events', hrun'⟩ := hm' s' hs'
    rw [run_bind, run_bind, hrun, hrun']
    cases result with
    | error e => exact hc.fault e
    | ok a => exact (hf a rfl).outcomes { s with events } { s' with events := events' } hs hb hs' hb'
  world {F f g} h := by
    refine ⟨keeps_world h.left, keeps_world h.right, fun s s' hs hb hs' hb' => ?_⟩
    rw [run_bind, run_bind, run_get, run_get]
    dsimp only
    rw [hs, hs']
    exact h.outcomes s s' hs hb hs' hb'
  andThen {F G m m' n n'} _ hm hn := by
    refine ⟨hm.left.andThen hn.left, hm.right.andThen hn.right, fun s s' hs hb hs' hb' => ?_⟩
    obtain ⟨hworld, hbindings⟩ := hm.left s hs hb
    obtain ⟨hworld', hbindings'⟩ := hm.right s' hs' hb'
    rw [outcome_andThen, outcome_andThen]
    exact hc.andThen (hm.outcomes s s' hs hb hs' hb') (hn.outcomes _ _ hworld hbindings hworld' hbindings')

theorem accepted : Paired w I I' agree (pure .yes) (pure .yes) :=
  (hc.rules w I I').accepted (F := fun _ => True) fun _ => trivial

theorem rejected (steps : List Selector) (v : Value) (t : TypeExpr) (reason : Reason) :
    Paired w I I' agree (pure (.no (Context.mismatch v t ⟨slot, steps⟩ reason)))
      (pure (.no (Context.mismatch v t ⟨slot', steps⟩ reason))) :=
  (hc.rules w I I').rejected (F := fun _ => True) steps v t reason

theorem decided (steps : List Selector) (accepted : Bool) (v : Value) (t : TypeExpr) (reason : Reason) :
    Paired w I I' agree (decide accepted (Context.mismatch v t ⟨slot, steps⟩ reason))
      (decide accepted (Context.mismatch v t ⟨slot', steps⟩ reason)) :=
  (hc.rules w I I').decided (F := fun _ => True) steps (fun _ _ => trivial) v t reason

theorem all {ι : Type} {xs : List ι} {f f' : ι → Judging Verdict} (h : ∀ x ∈ xs, Paired w I I' agree (f x) (f' x)) :
    Paired w I I' agree (allOf (xs.map f)) (allOf (xs.map f')) :=
  (hc.rules w I I').all (F := fun _ _ => True) h fun _ _ _ _ h => h

/-- With the same receiver, base types are judged in the same way. -/
theorem judgeBase {ctx : Context} {cells : Nat → Prop} {v : Value} (hp : ctx.program.Separate) (hw : w.BuiltIn cells)
    (hv : v.BuiltIn cells) (steps : List Selector) (kind : Base) :
    Paired w I I' agree (ctx.judgeBase kind v ⟨slot, steps⟩) (ctx.judgeBase kind v ⟨slot', steps⟩) :=
  (hc.rules w I I').judgeBase (F := fun _ => True) hp hw hv (fun _ _ => trivial) steps fun _ _ => trivial

/-- With the same sample size, the same elements are looked at. -/
theorem sampled {ctx : Context} {r : Option Value} {v : Value} {items : List Value}
    {look look' : Nat → Value → Judging Verdict} (hv : ctx.program.Yields w v items)
    (hlook : ∀ i, ∀ x ∈ items, Paired w I I' agree (look i x) (look' i x)) (hcell : v.isCell = false) :
    Paired w I I' agree (ctx.sampled v look) ((ctx.variant ctx.sampleSize r).sampled v look') := by
  refine (hc.rules w I I').sampled (F := fun _ _ => True) (fun _ _ _ _ h => h) hv hlook hcell fun size _ => ?_
  refine ⟨fun _ _ => trivial, fun plan hplan => ?_⟩
  cases plan with
  | all => trivial
  | first limit => exact fun _ _ => trivial
  | goThrough wanted => exact fun _ => trivial
  | pickOut wanted =>
    have hsequence := Context.isInstance_of_access (Sampling.plan_pickOut hplan).1
    intro i _
    exact inspects_running ((hv.item hsequence i).tryCatch fun _ => (quiet_throw _).ite (quiet_throw _))

end Compatible

/-! ## Comparisons of judgements -/

open Judging

/-- The judgements of such values are comparable where they may differ: where there is a base type that refers to the
receiver, a type variable, or a sample. -/
structure Comparison (ctx ctx' : Context) (w : World) (P : Value → Prop) (slot slot' : String)
    (I I' : Option Bindings → Prop) (agree : Outcome → Outcome → Prop) : Prop extends Compatible slot slot' agree where
  base : ∀ (kind : Base) {v : Value} (steps : List Selector), P v →
    Paired w I I' agree (ctx.judgeBase kind v ⟨slot, steps⟩) (ctx'.judgeBase kind v ⟨slot', steps⟩)
  typeVar : ∀ (name : String) (v : Value) (steps : List Selector),
    Paired w I I' agree (ctx.judgeTypeVar name v ⟨slot, steps⟩) (ctx'.judgeTypeVar name v ⟨slot', steps⟩)
  sampled : ∀ {v : Value} {items : List Value} {look look' : Nat → Value → Judging Verdict}, P v →
    v.isCollection = true → v.items? = some items → (∀ i, ∀ x ∈ items, Paired w I I' agree (look i x) (look' i x)) →
    Paired w I I' agree (ctx.sampled v look) (ctx'.sampled v look')

namespace Comparison

variable {ctx : Context} {k : Option Int} {r : Option Value} {w : World} {cells : Nat → Prop} {P : Value → Prop}
  {slot slot' : String} {I I' : Option Bindings → Prop} {agree : Outcome → Outcome → Prop}

theorem descent {ctx' : Context} (hc : Comparison ctx ctx' w P slot slot' I I' agree) :
    Descent ctx ctx' w (fun _ => True) P slot slot' fun _ => Paired w I I' agree where
  toRules := hc.rules w I I'
  union {F judge judge' ts v steps} hts := by
    refine ⟨keeps_firstOf ?_ _ _, keeps_firstOf ?_ _ _, fun s s' hs hb hs' hb' => ?_⟩
    · intro m hm
      obtain ⟨t, ht, rfl⟩ := List.mem_map.1 hm
      exact (hts t ht).left
    · intro m hm
      obtain ⟨t, ht, rfl⟩ := List.mem_map.1 hm
      exact (hts t ht).right
    · unfold Context.judgeUnion
      rw [outcome_firstOf, outcome_firstOf]
      exact hc.union ts v steps (forall₂_inTurn hts hb hb' s s' hs hs')
  base kind _ steps hv _ := hc.base kind steps hv
  typeVar name v steps _ := hc.typeVar name v steps
  sampled hv hcollection hitems _ hlook := hc.sampled hv hcollection hitems hlook

/-- The two ways to judge are comparable on such values. -/
def PairedJudge (w : World) (P : Value → Prop) (slot slot' : String) (I I' : Option Bindings → Prop)
    (agree : Outcome → Outcome → Prop) (judge judge' : Judge) : Prop :=
  ∀ {v : Value} (t : TypeExpr) (steps : List Selector), P v →
    Paired w I I' agree (judge v t ⟨slot, steps⟩) (judge' v t ⟨slot', steps⟩)

/-- However deep the judgements go, they are comparable. -/
theorem paired_judge (hc : Comparison ctx (ctx.variant k r) w P slot slot' I I' agree)
    (hp : ctx.program.Separate) (hD : Domain w cells P) (hw : w.BuiltIn cells) (fuel : Nat) :
    PairedJudge w P slot slot' I I' agree (ctx.judge fuel) ((ctx.variant k r).judge fuel) := by
  induction fuel with
  | zero => exact fun t steps hv => (hc.rules w I I').faulted (F := fun _ => True) trivial
  | succ fuel ih =>
    intro v t steps hv
    exact hc.descent.judgeUnlessDouble steps hp (hD.grounds hw) (hD.resolve hv) (hD.builtIn hv) (fun _ _ => trivial)
      (fun _ _ => trivial) (fun u _ steps => ih u steps (hD.resolve hv)) fun u _ x hx steps => ih u steps hx

end Comparison

end Conformance
