import Conformance.Proofs.Guarded
import Conformance.Proofs.Samples

/-!
# Where a rejection points

Judging looks into the value that is judged and into what is in it (`Gaze.Seen`), and looking may run code of the program
under test (`Gaze.Inspection`).  So what is in a value is a question of when it is asked; a state of the program is later
than another if looks lead from the one to the other (`Gaze.Later`).

`Gaze.Selects` is one step from a value and a type to a part of the value and the type that judging expects of that
part, with the selector that stands for the step.  `Gaze.Reaches` is any number of such steps, each taken after the
one before it, and of steps to another type for the same value (`TypeExpr.Facet`).

`Gaze.Ensures` says what a computation comes to if it is started in a later state.  Each kind of type has a lemma
that says where its rejections come from (`Gaze.PointsInto`): from the value itself, from the same value by a facet,
or from a selected part.

Main statement: `Context.rejection_points_at_part`.  The path of a rejection spells the chain of selectors to a part of
the value, and the part was judged against the type that the rejection names, and rejected there itself.
-/

namespace Conformance

open Context

/-- A context, and the value that is judged in it as a whole. -/
structure Gaze extends Context where
  root : Value

namespace Gaze

variable {α β : Type} {g : Gaze} {w w' : World} {run : Run α}

/-! ## Looks and later states -/

/-- There is a state of the program in which the computation gives this. -/
def MayGive (run : Run α) (a : α) : Prop := ∃ w w', run.run.run w = (.ok a, w')

mutual

/-- The value is the one that is judged, or one that is found in what is seen of it. -/
inductive Seen (g : Gaze) : Value → Prop
  | root : Seen g g.root
  | now {v : Value} (w : World) (hv : Seen g v) : Seen g (w.resolve v)
  | element {feed rest : Feed} {x : Value} (hfeed : Fed g feed) (h : MayGive (g.next feed) (some (x, rest))) : Seen g x
  | item {v key x : Value} (hv : Seen g v) (h : MayGive (g.item v key) x) : Seen g x
  | keys {v keys : Value} (hv : Seen g v) (h : MayGive (g.program.keysOf g.program.invoke v) keys) : Seen g keys
  | start {v : Value} {start stop step : Int} (hv : Seen g v) (h : v.core = .range start stop step) :
      Seen g (.int start)
  | stop {v : Value} {start stop step : Int} (hv : Seen g v) (h : v.core = .range start stop step) :
      Seen g (.int stop)

/-- The feed is what is left of going through a value that is seen. -/
inductive Fed (g : Gaze) : Feed → Prop
  | whole {v : Value} {feed : Feed} (hv : Seen g v) (h : MayGive (g.feed v) feed) : Fed g feed
  | rest {feed rest : Feed} {x : Value} (hfeed : Fed g feed) (h : MayGive (g.next feed) (some (x, rest))) : Fed g rest

end

/-- The ways in which judging looks into what is seen. -/
inductive Inspection (g : Gaze) : (α : Type) → Run α → Prop
  | shown {v : Value} (hv : g.Seen v) : Inspection g String (g.shown v)
  | size {v : Value} (hv : g.Seen v) : Inspection g Nat (g.size v)
  | feed {v : Value} (hv : g.Seen v) : Inspection g Feed (g.feed v)
  | next {feed : Feed} (hfeed : g.Fed feed) : Inspection g (Option (Value × Feed)) (g.next feed)
  | item {v : Value} (hv : g.Seen v) (key : Value) : Inspection g Value (g.item v key)
  | contains {v : Value} (hv : g.Seen v) (key : Value) : Inspection g Bool (g.program.contains g.program.invoke v key)
  | keys {v : Value} (hv : g.Seen v) : Inspection g Value (g.program.keysOf g.program.invoke v)
  | declared {v : Value} (fields : List (Field TypeExpr)) (hv : g.Seen v) : Inspection g Bool (g.isDeclared fields v)
  | special {v : Value} (hv : g.Seen v) (name : String) : Inspection g (Option Attribute) (g.program.special? v name)
  | attribute {v : Value} (hv : g.Seen v) (name : String) : Inspection g (Option (Option Attribute))
      (g.program.endingOn ["AttributeError"] (g.program.ask g.program.invoke v name))

variable {feed : Feed} {i : Nat} {v x : Value}

/-- One look leads from a state of the program to another. -/
def Look (g : Gaze) (w w' : World) : Prop :=
  ∃ (α : Type) (run : Run α), g.Inspection α run ∧ (run.run.run w).2 = w'

/-- Looks lead from a state of the program to another. -/
def Later (g : Gaze) : World → World → Prop := Relation.ReflTransGen g.Look

/-- At a later state the computation gives this result, and leaves this state. -/
def Told (g : Gaze) (w : World) (run : Run α) (a : α) (w' : World) : Prop :=
  ∃ start, g.Later w start ∧ run.run.run start = (.ok a, w')

/-- The computation does nothing but look. -/
def OnlyLooks (g : Gaze) (run : Run α) : Prop := ∀ w, g.Later w (run.run.run w).2

theorem Told.since {a : α} {mid : World} (h : g.Told mid run a w') (hw : g.Later w mid) :
    g.Told w run a w' := by
  obtain ⟨start, hstart, hrun⟩ := h
  exact ⟨start, hw.trans hstart, hrun⟩

theorem Told.mayGive {a : α} (h : g.Told w run a w') : MayGive run a := by
  obtain ⟨start, -, hrun⟩ := h
  exact ⟨start, w', hrun⟩

theorem Inspection.onlyLooks (h : g.Inspection α run) : g.OnlyLooks run :=
  fun _ => .single ⟨α, run, h, rfl⟩

theorem onlyLooks_pure (a : α) : g.OnlyLooks (pure a : Run α) := fun _ => .refl

theorem OnlyLooks.map (h : g.OnlyLooks run) (f : α → β) :
    g.OnlyLooks (do return f (← run)) := by
  intro w
  have hlater := h w
  rw [run_bind]
  rcases hrun : run.run.run w with ⟨e | a, w'⟩
  · rwa [hrun] at hlater
  · rwa [hrun] at hlater

/-! ## Parts of values -/

/-- Element number `i` of a feed, taken one after the other. -/
inductive Nth (g : Gaze) : World → Feed → Nat → Value → World → Prop
  | first {w w' : World} {feed rest : Feed} {x : Value} (h : g.Told w (g.next feed) (some (x, rest)) w') :
      Nth g w feed 0 x w'
  | later {w mid w' : World} {feed rest : Feed} {i : Nat} {x y : Value}
      (h : g.Told w (g.next feed) (some (y, rest)) mid) (hx : Nth g mid rest i x w') :
      Nth g w feed (i + 1) x w'

theorem Nth.since {mid : World} (h : g.Nth mid feed i x w') (hw : g.Later w mid) : g.Nth w feed i x w' := by
  cases h with
  | first h => exact .first (h.since hw)
  | later h hx => exact .later (h.since hw) hx

/-- Element number `i` of a value: of those that going through it gives, or what it has at that position, if it is a
sequence and says that it has more elements than a sample. -/
inductive Element (g : Gaze) (w : World) (v : Value) (i : Nat) (x : Value) (w' : World) : Prop
  | iterated {mid : World} {feed : Feed} (hfeed : g.Told w (g.feed v) feed mid) (hx : g.Nth mid feed i x w')
  | placed {start mid : World} {size : Nat} {limit : Int} (hstart : g.Later w start)
      (hsequence : g.isContainer (start.resolve v) "Sequence" = true)
      (hsize : g.Told start (g.size v) size mid) (hlimit : g.sampleSize = some limit) (hlarge : limit < size)
      (hx : g.Told mid (g.item v (.int i)) x w')

theorem Nth.seen (h : g.Nth w feed i x w') (hfeed : g.Fed feed) : g.Seen x := by
  induction h with
  | first h => exact .element hfeed h.mayGive
  | later h _ ih => exact ih (.rest hfeed h.mayGive)

theorem Element.seen (h : g.Element w v i x w') (hv : g.Seen v) : g.Seen x := by
  cases h with
  | iterated hfeed hx => exact hx.seen (.whole hv hfeed.mayGive)
  | placed _ _ _ _ _ hx => exact .item hv hx.mayGive

/-- One step from a value and a type to a part of the value and the type that is expected of the part. -/
inductive Selects (g : Gaze) (w : World) (v : Value) :
    TypeExpr → Selector → Value → TypeExpr → World → Prop
  /-- The elements of a tuple have a type each. -/
  | component {ts : List TypeExpr} {u : TypeExpr} {i : Nat} {x : Value} {feed : Feed} {mid w' : World}
      (hu : ts[i]? = some u) (hfeed : g.Told w (g.feed v) feed mid) (hx : g.Nth mid feed i x w') :
      Selects g w v (.tuple ts) (.element i) x u w'
  | element {name : String} {u : TypeExpr} {us : List TypeExpr} {i : Nat} {x : Value} {w' : World}
      (halias : g.registry.isAlias name = false) (hx : g.Element w v i x w') :
      Selects g w v (.classRef name (u :: us)) (.element i) x u w'
  | start {name : String} {u : TypeExpr} {us : List TypeExpr} {start stop step : Int}
      (halias : g.registry.isAlias name = false) (hv : v.core = .range start stop step) :
      Selects g w v (.classRef name (u :: us)) .start (.int start) u w
  | stop {name : String} {u : TypeExpr} {us : List TypeExpr} {start stop step : Int}
      (halias : g.registry.isAlias name = false) (hv : v.core = .range start stop step) :
      Selects g w v (.classRef name (u :: us)) .stop (.int stop) u w
  | key {name : String} {first second : TypeExpr} {us : List TypeExpr} {keys k : Value} {i : Nat} {shown : String}
      {mid later w' : World} (halias : g.registry.isAlias name = false) (hv : g.isContainer v "Mapping" = true)
      (hkeys : g.Told w (g.program.keysOf g.program.invoke v) keys mid) (hk : g.Element mid keys i k later)
      (hshown : g.Told later (g.shown k) shown w') :
      Selects g w v (.classRef name (first :: second :: us)) (.key shown) k first w'
  | value {name : String} {first second : TypeExpr} {us : List TypeExpr} {keys k x : Value} {i : Nat} {shown : String}
      {mid later last w' : World} (halias : g.registry.isAlias name = false)
      (hv : g.isContainer v "Mapping" = true)
      (hkeys : g.Told w (g.program.keysOf g.program.invoke v) keys mid) (hk : g.Element mid keys i k later)
      (hx : g.Told later (g.item v k) x last) (hshown : g.Told last (g.shown k) shown w') :
      Selects g w v (.classRef name (first :: second :: us)) (.valueAt shown) x second w'
  /-- A declared field of a record. -/
  | field {fields : List (Field TypeExpr)} {extra : Option TypeExpr} {f : Field TypeExpr} {x : Value} {mid w' : World}
      (hf : f ∈ fields) (hv : g.isContainer v "Mapping" = true)
      (hhas : g.Told w (g.program.contains g.program.invoke v (.ofKey f.key)) true mid)
      (hx : g.Told mid (g.item v (.ofKey f.key)) x w') :
      Selects g w v (.record fields extra) (.valueAt (Value.ofKey f.key).written) x f.type w'
  /-- A key that no field of the record declares. -/
  | extra {fields : List (Field TypeExpr)} {u : TypeExpr} {k x : Value} {i : Nat} {feed : Feed} {shown : String}
      {mid taken asked last w' : World} (hv : g.isContainer v "Mapping" = true)
      (hfeed : g.Told w (g.feed v) feed mid) (hk : g.Nth mid feed i k taken)
      (hother : g.Told taken (g.isDeclared fields k) false asked)
      (hx : g.Told asked (g.item v k) x last) (hshown : g.Told last (g.shown k) shown w') :
      Selects g w v (.record fields (some u)) (.valueAt shown) x u w'

/-- A chain of selectors, the innermost first, leads from a value and a type to a part and the type expected of it. -/
inductive Reaches (g : Gaze) : World → Value → TypeExpr → List Selector → Value → TypeExpr → World → Prop
  | here {w w' : World} {v : Value} {t : TypeExpr} (hw : g.Later w w') : Reaches g w v t [] v t w'
  /-- Of a value that can change, what counts is what it is when it is looked at. -/
  | now {w mid w' : World} {v x : Value} {t u : TypeExpr} {chain : List Selector} (hw : g.Later w mid)
      (h : Reaches g mid (mid.resolve v) t chain x u w') : Reaches g w v t chain x u w'
  | facet {w w' : World} {v x : Value} {t t' u : TypeExpr} {chain : List Selector} (ht : t.Facet g.registry t')
      (h : Reaches g w v t' chain x u w') : Reaches g w v t chain x u w'
  | into {w mid w' : World} {v y x : Value} {t t' u : TypeExpr} {selector : Selector} {chain : List Selector}
      (hy : g.Selects w v t selector y t' mid) (h : Reaches g mid y t' chain x u w') :
      Reaches g w v t (chain ++ [selector]) x u w'

end Gaze

/-- The rejection is one of this value, against this type, at this path. -/
structure Mismatch.Concerns (r : Mismatch) (v : Value) (t : TypeExpr) (path : Path) : Prop where
  path_eq : r.path = path
  expected_eq : r.expected = t
  actual_eq : r.actual = v.classOf

namespace Gaze

variable {α β : Type} {g : Gaze} {w w' : World} {run : Run α} {feed : Feed} {i : Nat} {v x : Value} {r : Mismatch}

theorem concerns_mismatch (v : Value) (t : TypeExpr) (path : Path) (reason : Reason) :
    (mismatch v t path reason).Concerns v t path :=
  ⟨rfl, rfl, rfl⟩

/-! ## What computations come to in later states -/

/-- Started in a later state the computation only looks, and what it gives, in the state that it leaves, has the
property. -/
def Ensures (g : Gaze) (w : World) (m : Judging α) (Q : α → World → Prop) : Prop :=
  ∀ s, g.Later w s.world → g.Later s.world (m.run.run s).2.world ∧
    ∀ a, (m.run.run s).1 = .ok a → Q a (m.run.run s).2.world

/-- Started in a later state the computation only looks, and its rejections have the property. -/
def Blames (g : Gaze) (w : World) (m : Judging Verdict) (Q : Mismatch → Prop) : Prop :=
  g.Ensures w m fun verdict _ => ∀ r, verdict = .no r → Q r

section Rules

variable {m : Judging α} {f : α → Judging β} {Q : α → World → Prop} {R : β → World → Prop}

theorem ensures_pure {a : α} (h : ∀ w', g.Later w w' → Q a w') : g.Ensures w (pure a) Q :=
  fun s hs => ⟨.refl, fun _ ha => by cases ha; exact h _ hs⟩

theorem Ensures.bind (hm : g.Ensures w m Q)
    (hf : ∀ a w', g.Later w w' → Q a w' → g.Ensures w' (f a) R) : g.Ensures w (m >>= f) R := by
  intro s hs
  obtain ⟨hlater, hok⟩ := hm s hs
  rw [run_bind]
  rcases hrun : m.run.run s with ⟨e | a, mid⟩
  · rw [hrun] at hlater
    exact ⟨hlater, fun _ h => by cases h⟩
  · rw [hrun] at hlater hok
    obtain ⟨hlater', hok'⟩ := hf a mid.world (hs.trans hlater) (hok a rfl) mid .refl
    exact ⟨hlater.trans hlater', hok'⟩

theorem Ensures.since (h : g.Ensures w m Q) (hw : g.Later w w') : g.Ensures w' m Q :=
  fun s hs => h s (hw.trans hs)

theorem Ensures.ite {n : Judging α} {c : Prop} [Decidable c] (hm : c → g.Ensures w m Q)
    (hn : ¬ c → g.Ensures w n Q) : g.Ensures w (if c then m else n) Q := by
  split
  · exact hm ‹_›
  · exact hn ‹_›

theorem ensures_get {f : Scene → Judging α} (h : ∀ s : Scene, g.Later w s.world → g.Ensures s.world (f s) Q) :
    g.Ensures w (get >>= f) Q :=
  fun s hs => h s hs s .refl

theorem ensures_modify {f : Scene → Scene} (h : ∀ s, (f s).world = s.world) :
    g.Ensures w (modify f : Judging Unit) fun _ _ => True := by
  refine fun s _ => ⟨?_, fun _ _ => trivial⟩
  change g.Later s.world (f s).world
  rw [h]
  exact .refl

theorem ensures_demand (result : Except Fault α) :
    g.Ensures w (Judging.demand result) fun a _ => result = .ok a :=
  fun _ _ => ⟨.refl, fun _ ha => ha⟩

theorem ensures_resolve (v : Value) : g.Ensures w (Judging.resolve v) fun u w' => u = w'.resolve v :=
  fun _ _ => ⟨.refl, fun _ h => by cases h; rfl⟩

theorem ensures_running (h : g.OnlyLooks run) :
    g.Ensures w (Judging.running run) (g.Told w run) := by
  intro s hs
  have hlater := h s.world
  rw [Judging.run_running]
  rcases hrun : run.run.run s.world with ⟨e | a, mid⟩
  · rw [hrun] at hlater
    exact ⟨hlater, fun _ h => by cases h⟩
  · rw [hrun] at hlater
    exact ⟨hlater, fun _ h => by cases h; exact ⟨s.world, hs, hrun⟩⟩

theorem ensures_look (h : g.Inspection α run) : g.Ensures w (Judging.running run) (g.Told w run) :=
  ensures_running h.onlyLooks

/-- As part of a sample a look gives what it gives anyway. -/
theorem ensures_sampling (h : g.Inspection α run) : g.Ensures w (g.sampling run) (g.Told w run) := by
  intro s hs
  have hlater := h.onlyLooks s.world
  rw [sampling, Judging.run_running, Run.run_tryCatch]
  rcases hrun : run.run.run s.world with ⟨e | a, mid⟩
  · rw [hrun] at hlater
    dsimp only
    by_cases hstop : g.program.isSubclass e.error (.builtin "StopIteration") = true
    · rw [if_pos hstop]
      exact ⟨hlater, fun _ h => by cases h⟩
    · rw [if_neg hstop]
      exact ⟨hlater, fun _ h => by cases h⟩
  · rw [hrun] at hlater
    exact ⟨hlater, fun _ h => by cases h; exact ⟨s.world, hs, hrun⟩⟩

theorem ensures_note (level : LogLevel) (source : LogSource) {message : Run String} (h : g.OnlyLooks message) :
    g.Ensures w (g.note level source message) fun _ _ => True := by
  refine .ite (fun _ => ?_) fun _ => ensures_pure fun _ _ => trivial
  exact (ensures_running h).bind fun _ _ _ _ => ensures_modify fun _ => rfl

end Rules

section Verdicts

variable {m n : Judging Verdict} {Q : Mismatch → Prop}

theorem Blames.mono {Q' : Mismatch → Prop} (h : g.Blames w m Q) (hQ : ∀ r, Q r → Q' r) : g.Blames w m Q' := by
  intro s hs
  obtain ⟨hlater, hok⟩ := h s hs
  exact ⟨hlater, fun verdict hverdict r hr => hQ r (hok verdict hverdict r hr)⟩

theorem blames_accepted {verdict : Verdict} (h : verdict.isOk = true) : g.Blames w (pure verdict) Q :=
  ensures_pure fun _ _ r hr => by subst hr; cases h

theorem blames_rejected (h : Q r) : g.Blames w (pure (.no r)) Q :=
  ensures_pure fun _ _ r' hr => by cases hr; exact h

theorem blames_fault (e : Fault) : g.Blames w (Judging.demand (.error e)) Q :=
  fun _ _ => ⟨.refl, fun _ h => by cases h⟩

theorem blames_decide (accepted : Bool) (h : Q r) : g.Blames w (Judging.decide accepted r) Q := by
  cases accepted with
  | true => exact blames_accepted rfl
  | false => exact blames_rejected h

theorem Blames.andThen (hm : g.Blames w m Q) (hn : g.Blames w n Q) : g.Blames w (m.andThen n) Q := by
  refine Ensures.bind hm fun verdict w' hw hverdict => .ite (fun _ => hn.since hw) fun _ => ?_
  exact ensures_pure fun _ _ => hverdict

theorem blames_allOf {ms : List (Judging Verdict)} (h : ∀ m ∈ ms, g.Blames w m Q) :
    g.Blames w (Judging.allOf ms) Q := by
  induction ms with
  | nil => exact blames_accepted rfl
  | cons m ms ih => exact (h m List.mem_cons_self).andThen (ih fun n hn => h n (List.mem_cons_of_mem _ hn))

theorem Blames.tentatively (hm : g.Blames w m Q) : g.Blames w m.tentatively Q := by
  intro s hs
  obtain ⟨hlater, hok⟩ := hm s hs
  rw [Judging.run_tentatively]
  rcases hrun : m.run.run s with ⟨e | verdict, after⟩
  · rw [hrun] at hlater
    exact ⟨hlater, fun _ h => by cases h⟩
  · rw [hrun] at hlater hok
    refine ⟨?_, fun a ha => hok a ha⟩
    dsimp only
    split
    · exact hlater
    · exact hlater

/-- Where all alternatives have failed it is the whole that is rejected. -/
theorem blames_firstOf {rejected : List Mismatch → Mismatch} {ms : List (Judging Verdict)}
    (h : ∀ m ∈ ms, g.Blames w m fun _ => True) (hrejected : ∀ failures, Q (rejected failures))
    (failures : List Mismatch) : g.Blames w (Judging.firstOf rejected failures ms) Q := by
  induction ms generalizing failures with
  | nil => exact blames_rejected (hrejected failures)
  | cons m ms ih =>
    refine Ensures.bind (h m List.mem_cons_self).tentatively fun verdict w' hw _ => ?_
    cases verdict with
    | no r => exact (ih (fun n hn => h n (List.mem_cons_of_mem _ hn)) _).since hw
    | yes => exact blames_accepted rfl
    | maybe name => exact blames_accepted rfl

end Verdicts

/-! ## Looking at samples -/

section Samples

variable {look : Nat → Value → Judging Verdict} {done : Judging Verdict} {Q : Mismatch → Prop}

theorem blames_visit {wanted : Nat → Bool} {left : Nat} (hfeed : g.Fed feed)
    (hlook : ∀ j x w', g.Nth w feed j x w' → g.Blames w' (look (i + j) x) Q) (hdone : g.Blames w done Q) :
    g.Blames w (g.visit wanted look done left i feed) Q := by
  -- each element that is taken makes the feed shorter and the state later
  induction left generalizing w i feed with
  | zero => exact hdone
  | succ left ih =>
    refine Ensures.bind (ensures_sampling (.next hfeed)) fun taken mid hw htaken => ?_
    cases taken with
    | none => exact blames_accepted rfl
    | some e =>
      refine Blames.andThen (.ite (fun _ => hlook 0 e.1 mid (.first htaken)) fun _ => blames_accepted rfl) ?_
      refine ih (.rest hfeed htaken.mayGive) (fun j x w' hx => ?_) (hdone.since hw)
      rw [Nat.add_right_comm]
      exact hlook (j + 1) x w' (.later htaken hx)

section

variable (hv : g.Seen v)
include hv

theorem blames_visitAt (hlook : ∀ (i : Nat) x w', g.Told w (g.item v (.int i)) x w' → g.Blames w' (look i x) Q)
    (wanted : List Nat) : g.Blames w (g.visitAt v look wanted) Q := by
  induction wanted generalizing w with
  | nil => exact blames_accepted rfl
  | cons i rest ih =>
    refine Ensures.bind (ensures_sampling (.item hv _)) fun x mid hw hx => ?_
    exact (hlook i x mid hx).andThen (ih fun j y w' hy => hlook j y w' (hy.since hw))

theorem blames_carryOut {plan : Sampling.Plan}
    (hiterated : ∀ feed mid i x w', g.Told w (g.feed v) feed mid → g.Nth mid feed i x w' →
      g.Blames w' (look i x) Q)
    (hplaced : ∀ wanted, plan = .pickOut wanted → ∀ (i : Nat) x w', g.Told w (g.item v (.int i)) x w' →
      g.Blames w' (look i x) Q) : g.Blames w (g.carryOut v look plan) Q := by
  have hfeed : g.Ensures w (g.sampling (g.feed v)) (g.Told w (g.feed v)) :=
    ensures_sampling (.feed hv)
  have hvisit {feed : Feed} {mid later : World} (htold : g.Told w (g.feed v) feed mid) (hw : g.Later mid later)
      (wanted : Nat → Bool) {done : Judging Verdict} (hdone : g.Blames later done Q) (left : Nat) :
      g.Blames later (g.visit wanted look done left 0 feed) Q := by
    refine blames_visit (.whole hv htold.mayGive) (fun j x w' hx => ?_) hdone
    rw [Nat.zero_add]
    exact hiterated feed mid j x w' htold (hx.since hw)
  cases plan with
  | all =>
    refine hfeed.bind fun feed mid _ htold => ?_
    exact ensures_get fun s hw => hvisit htold hw _ (blames_fault _) _
  | first limit =>
    refine hfeed.bind fun feed mid _ htold => ?_
    refine Ensures.bind (ensures_demand _) fun count later hw _ => ?_
    exact hvisit htold hw _ (blames_accepted rfl) _
  | pickOut wanted => exact blames_visitAt hv (hplaced wanted rfl) wanted
  | goThrough wanted =>
    refine hfeed.bind fun feed mid _ htold => ?_
    split
    · exact hvisit htold .refl _ (blames_accepted rfl) _
    · refine Ensures.bind (ensures_sampling (.next (.whole hv htold.mayGive))) fun taken later _ _ => ?_
      cases taken with
      | none => exact blames_accepted rfl
      | some _ => exact blames_fault _

/-- What a sample rejects it rejects on account of one of the elements. -/
theorem blames_sampled (hlook : ∀ i x w', g.Element w v i x w' → g.Blames w' (look i x) Q) :
    g.Blames w (g.sampled v look) Q := by
  have hcarry {start : World} {size : Nat} {mid : World} (hw : g.Later w mid)
      (hplaced : ∀ wanted, Sampling.plan (g.access (start.resolve v)) size g.sampleSize = .ok (.pickOut wanted) →
        ∀ (i : Nat) x w', g.Told mid (g.item v (.int i)) x w' → g.Blames w' (look i x) Q) :
      g.Blames mid (Judging.demand (Sampling.plan (g.access (start.resolve v)) size g.sampleSize) >>= fun plan =>
        g.carryOut v look plan) Q := by
    refine Ensures.bind (ensures_demand _) fun plan later hlater hplan => ?_
    refine blames_carryOut hv (fun feed mid' i x w' hfeed hx => ?_) fun wanted h i x w' hx => ?_
    · exact hlook i x w' (.iterated (hfeed.since (hw.trans hlater)) hx)
    · exact hplaced wanted (h ▸ hplan) i x w' (hx.since hlater)
  refine Ensures.bind (ensures_resolve v) fun u start hstart hu => ?_
  subst hu
  refine .ite (fun _ => ?_) fun hunsized => ?_
  · refine Ensures.bind (ensures_sampling (.size hv)) fun size mid hmid hsize => ?_
    refine hcarry (hstart.trans hmid) fun wanted hplan i x w' hx => ?_
    obtain ⟨haccess, limit, hlimit, hlarge, -⟩ := Sampling.plan_pickOut hplan
    exact hlook i x w' (.placed hstart (isInstance_of_access haccess) hsize hlimit hlarge hx)
  · rw [pure_bind]
    refine hcarry hstart fun wanted hplan => ?_
    -- without a size nothing is picked out
    obtain ⟨haccess, limit, hlimit, -⟩ := Sampling.plan_pickOut hplan
    rw [haccess, hlimit] at hunsized
    exact absurd rfl hunsized

end

end Samples

/-! ## Checks that look at the value alone -/

section Own

variable {path : Path}

theorem blames_judgeBase (hv : g.Seen v) (kind : Base) :
    g.Blames w (g.judgeBase kind v path) (·.Concerns v (.base kind) path) := by
  cases kind
  case selfType | instanceType | classType =>
    unfold judgeBase
    dsimp only
    split
    · refine Ensures.bind (ensures_note _ _ ((Inspection.shown hv).onlyLooks.map _)) fun _ _ _ _ => ?_
      exact blames_accepted rfl
    · exact blames_decide _ (concerns_mismatch v _ path _)
  case top | void | boolish => exact blames_accepted rfl
  case bot => exact blames_rejected (concerns_mismatch v _ path _)
  case bool | nil => exact blames_decide _ (concerns_mismatch v _ path _)

theorem ensures_target (name : String) : g.Ensures w (g.target name) fun _ _ => True := by
  refine Ensures.bind (ensures_demand _) fun _ _ _ _ => ?_
  exact Ensures.bind (ensures_modify fun _ => rfl) fun _ _ _ _ => ensures_pure fun _ _ => trivial

theorem blames_judgeSingleton (name : String) :
    g.Blames w (g.judgeSingleton name v path) (·.Concerns v (.singleton name) path) := by
  refine Ensures.bind (ensures_target name) fun found _ _ _ => ?_
  cases found with
  | ofModule home => exact blames_decide _ (concerns_mismatch v _ path _)
  | ofClass c => exact blames_decide _ (concerns_mismatch v _ path _)

theorem ensures_lacking? (hv : g.Seen v) (c : Capability TypeExpr) : g.Ensures w (g.lacking? v c) fun _ _ => True := by
  have hlooks : g.OnlyLooks (if Program.isSpecial c.name then g.program.special? v c.name else do
      return (← g.program.endingOn ["AttributeError"]
        (g.program.ask g.program.invoke v c.name)).join) := by
    split
    · exact (Inspection.special hv c.name).onlyLooks
    · exact (Inspection.attribute hv c.name).onlyLooks.map _
  have hcapability : g.Ensures w (g.capability? v c.name) fun _ _ => True :=
    (ensures_running hlooks).bind fun _ _ _ _ => ensures_get fun _ _ => ensures_pure fun _ _ => trivial
  refine hcapability.bind fun found _ _ _ => ?_
  split
  · exact ensures_pure fun _ _ => trivial
  · exact .ite (fun _ => ensures_pure fun _ _ => trivial) fun _ => ensures_pure fun _ _ => trivial

theorem blames_judgeInterface (hv : g.Seen v) (name : String) (methods : List (Capability TypeExpr)) :
    g.Blames w (g.judgeInterface name methods v path) (·.Concerns v (.interface name methods) path) := by
  refine blames_allOf fun m hm => ?_
  obtain ⟨c, -, rfl⟩ := List.mem_map.mp hm
  refine Ensures.bind (ensures_lacking? hv c) fun lacking _ _ _ => ?_
  cases lacking with
  | none => exact blames_accepted rfl
  | some reason => exact blames_rejected (concerns_mismatch v _ path reason)

theorem blames_judgeProc (t : TypeExpr) (params : Params TypeExpr) :
    g.Blames w (g.judgeProc t params v path) (·.Concerns v t path) :=
  Ensures.ite (fun _ => blames_rejected (concerns_mismatch v t path _)) fun _ =>
    blames_decide _ (concerns_mismatch v t path _)

theorem blames_judgeTypeVar (name : String) :
    g.Blames w (g.judgeTypeVar name v path) (·.Concerns v (.typeVar name) path) := by
  have haccept (b : Bindings) (w' : World) : g.Blames w' (do
      modify fun s => { s with bindings := some b }
      return .yes) (·.Concerns v (.typeVar name) path) :=
    Ensures.bind (ensures_modify fun _ => rfl) fun _ _ _ _ => blames_accepted rfl
  refine ensures_get fun s _ => ?_
  split
  · exact blames_accepted rfl
  · split
    · exact haccept _ _
    · refine .ite (fun _ => blames_accepted rfl) fun _ => .ite (fun _ => haccept _ _) fun _ => ?_
      exact blames_rejected ⟨rfl, rfl, rfl⟩

end Own

/-! ## Checks of parts -/

/-- What a rejection by the check of one kind of type may be: of the value itself, of the same value by a facet of the
type, or of a part of the value. -/
inductive PointsInto (g : Gaze) (w : World) (P : World → Value → TypeExpr → Path → Mismatch → Prop) (v : Value)
    (t : TypeExpr) (path : Path) (r : Mismatch) : Prop
  | own (h : r.Concerns v t path)
  | facet {u : TypeExpr} (hu : t.Facet g.registry u) (h : P w v u path r)
  | part {selector : Selector} {x : Value} {u : TypeExpr} {w' : World} (hx : g.Selects w v t selector x u w')
      (h : P w' x u (path.into selector) r)

section Parts

variable {judge : Judge} {P : World → Value → TypeExpr → Path → Mismatch → Prop}
  (hjudge : ∀ w v t path, g.Seen v → g.Blames w (judge v t path) (P w v t path)) {path : Path} {Q : Mismatch → Prop}
include hjudge

section

variable (hv : g.Seen v)
include hv

theorem blames_judgeUnion (ts : List TypeExpr) :
    g.Blames w (judgeUnion judge ts v path) (g.PointsInto w P v (.union ts) path) := by
  refine blames_firstOf (fun m hm => ?_) (fun failures => .own ⟨rfl, rfl, rfl⟩) []
  obtain ⟨t, -, rfl⟩ := List.mem_map.mp hm
  exact (hjudge w v t path hv).mono fun _ _ => trivial

theorem blames_judgeIntersection (ts : List TypeExpr) :
    g.Blames w (judgeIntersection judge ts v path) (g.PointsInto w P v (.intersection ts) path) := by
  refine blames_allOf fun m hm => ?_
  obtain ⟨t, ht, rfl⟩ := List.mem_map.mp hm
  exact (hjudge w v t path hv).mono fun _ hr => .facet (.conjunct ht) hr

omit hv in
theorem blames_judgeElements {ts : List TypeExpr} (hfeed : g.Fed feed)
    (hpart : ∀ j u x w' r, ts[j]? = some u → g.Nth w feed j x w' → P w' x u (path.into (.element (i + j))) r → Q r) :
    g.Blames w (g.judgeElements judge path i feed ts) Q := by
  induction ts generalizing w i feed with
  | nil => exact Ensures.bind (ensures_look (.next hfeed)) fun _ _ _ _ => blames_accepted rfl
  | cons t ts ih =>
    refine Ensures.bind (ensures_look (.next hfeed)) fun taken mid _ htaken => ?_
    cases taken with
    | none => exact blames_accepted rfl
    | some e =>
      have hfirst := hjudge mid e.1 t (path.into (.element i)) (.element hfeed htaken.mayGive)
      refine Blames.andThen (hfirst.mono fun r hr => ?_) (ih (.rest hfeed htaken.mayGive) fun j u x w' r hu hx hr => ?_)
      · exact hpart 0 t e.1 mid r rfl (.first htaken) hr
      · rw [Nat.add_right_comm] at hr
        exact hpart (j + 1) u x w' r hu (.later htaken hx) hr

theorem blames_judgeTuple (ts : List TypeExpr) :
    g.Blames w (g.judgeTuple judge ts v path) (g.PointsInto w P v (.tuple ts) path) := by
  have hsize (w : World) : g.Ensures w (Judging.running (g.size v)) (g.Told w (g.size v)) :=
    ensures_look (.size hv)
  refine Ensures.ite (fun _ => blames_rejected (.own (concerns_mismatch v _ path _))) fun _ => ?_
  refine (hsize w).bind fun size mid hmid _ => .ite (fun _ => ?_) fun _ => ?_
  · exact (hsize mid).bind fun _ _ _ _ => blames_rejected (.own (concerns_mismatch v _ path _))
  · refine (ensures_look (.feed hv)).bind fun feed later _ hfeed => ?_
    refine blames_judgeElements hjudge (.whole hv hfeed.mayGive) fun j u x w' r hu hx hr => ?_
    rw [Nat.zero_add] at hr
    exact .part (.component hu (hfeed.since hmid) hx) hr

theorem blames_judgeFields {reject : Reason → Mismatch} {fields : List (Field TypeExpr)}
    (hreject : ∀ reason, Q (reject reason))
    (hpart : ∀ f ∈ fields, ∀ x mid w' r,
      g.Told w (g.program.contains g.program.invoke v (.ofKey f.key)) true mid →
      g.Told mid (g.item v (.ofKey f.key)) x w' →
      P w' x f.type (path.into (.valueAt (Value.ofKey f.key).written)) r → Q r) :
    g.Blames w (g.judgeFields judge v path reject fields) Q := by
  induction fields generalizing w with
  | nil => exact blames_accepted rfl
  | cons f fs ih =>
    have hrest {mid : World} (hw : g.Later w mid) : g.Blames mid (g.judgeFields judge v path reject fs) Q :=
      ih fun g hg x asked w' r hhas => hpart g (List.mem_cons_of_mem _ hg) x asked w' r (hhas.since hw)
    refine Ensures.bind (ensures_look (.contains hv _)) fun has mid hmid hhas => ?_
    refine .ite (fun h => ?_) fun _ => .ite (fun _ => blames_rejected (hreject _)) fun _ => hrest hmid
    subst h
    refine Ensures.bind (ensures_look (.item hv _)) fun x later hlater hx => ?_
    have hfield := hjudge later x f.type (path.into (.valueAt (Value.ofKey f.key).written)) (.item hv hx.mayGive)
    refine Blames.andThen (hfield.mono fun r hr => ?_) (hrest (hmid.trans hlater))
    exact hpart f List.mem_cons_self x mid later r hhas hx hr

theorem blames_judgeOthers {reject : Reason → Mismatch} {fields : List (Field TypeExpr)} {extra : Option TypeExpr}
    (hfeed : g.Fed feed) (hreject : ∀ reason, Q (reject reason))
    (hpart : ∀ u, extra = some u → ∀ i k taken asked x last shown w' r, g.Nth w feed i k taken →
      g.Told taken (g.isDeclared fields k) false asked → g.Told asked (g.item v k) x last →
      g.Told last (g.shown k) shown w' → P w' x u (path.into (.valueAt shown)) r → Q r)
    (fuel : Nat) : g.Blames w (g.judgeOthers judge fields extra v path reject fuel feed) Q := by
  induction fuel generalizing w feed with
  | zero => exact blames_fault _
  | succ fuel ih =>
    refine Ensures.bind (ensures_look (.next hfeed)) fun taken mid _ htaken => ?_
    cases taken with
    | none => exact blames_accepted rfl
    | some e =>
      obtain ⟨k, rest⟩ := e
      have hk : g.Seen k := .element hfeed htaken.mayGive
      have hothers {later : World} (hlater : g.Later mid later) :
          g.Blames later (g.judgeOthers judge fields extra v path reject fuel rest) Q :=
        ih (.rest hfeed htaken.mayGive) fun u hu i k' taken asked x last shown w' r hk =>
          hpart u hu (i + 1) k' taken asked x last shown w' r (.later htaken (hk.since hlater))
      refine Ensures.bind (ensures_look (.declared fields hk)) fun declared asked hasked htold => ?_
      refine .ite (fun _ => hothers hasked) fun hother => ?_
      rw [Bool.not_eq_true] at hother
      subst hother
      cases extra with
      | none =>
        exact Ensures.bind (ensures_look (.shown hk)) fun _ _ _ _ => blames_rejected (hreject _)
      | some u =>
        refine Ensures.bind (ensures_look (.item hv k)) fun x last hlast hx => ?_
        refine Ensures.bind (ensures_look (.shown hk)) fun shown w' hw' hshown => ?_
        have hextra := hjudge w' x u (path.into (.valueAt shown)) (.item hv hx.mayGive)
        refine Blames.andThen (hextra.mono fun r hr => ?_) (hothers (hasked.trans (hlast.trans hw')))
        exact hpart u rfl 0 k mid asked x last shown w' r (.first htaken) htold hx hshown hr

theorem blames_judgeRecord (fields : List (Field TypeExpr)) (extra : Option TypeExpr) :
    g.Blames w (g.judgeRecord judge fields extra v path) (g.PointsInto w P v (.record fields extra) path) := by
  have hown (reason : Reason) :
      g.PointsInto w P v (.record fields extra) path (mismatch v (.record fields extra) path reason) :=
    .own (concerns_mismatch v _ path reason)
  refine Ensures.ite (fun _ => blames_rejected (hown _)) fun hmapping => ?_
  have hmapping : g.isContainer v "Mapping" = true := by simpa using hmapping
  refine Blames.andThen ?_ (Ensures.bind (ensures_look (.feed hv)) fun feed mid hmid hfeed => ?_)
  · refine blames_judgeFields hjudge hv hown fun f hf x mid w' r hhas hx hr => ?_
    exact .part (.field hf hmapping hhas hx) hr
  · refine ensures_get fun s hs => blames_judgeOthers hjudge hv (.whole hv hfeed.mayGive) hown ?_ _
    rintro u rfl i k taken asked x last shown w' r hk hother hx hshown hr
    exact .part (.extra hmapping hfeed (hk.since hs) hother hx hshown) hr

theorem blames_judgeEntries {name : String} {first second : TypeExpr} {us : List TypeExpr}
    (halias : g.registry.isAlias name = false) (hmapping : g.isContainer v "Mapping" = true) :
    g.Blames w (g.judgeEntries judge first second v path)
      (g.PointsInto w P v (.classRef name (first :: second :: us)) path) := by
  refine Ensures.bind (ensures_look (.keys hv)) fun keys mid _ hkeys => ?_
  have hview : g.Seen keys := .keys hv hkeys.mayGive
  refine blames_sampled hview fun i k later hkey => ?_
  have hk := hkey.seen hview
  have hshown (w' : World) : g.Ensures w' (Judging.running (g.shown k)) (g.Told w' (g.shown k)) :=
    ensures_look (.shown hk)
  refine (hshown later).bind fun shown w' hw' htold => Blames.andThen ?_ ?_
  · exact (hjudge w' k first _ hk).mono fun r hr => .part (.key halias hmapping hkeys hkey htold) hr
  · refine (ensures_look (.item hv k)).bind fun x last _ hx => ?_
    refine (hshown last).bind fun shown w'' _ htold => ?_
    refine (hjudge w'' x second _ (.item hv hx.mayGive)).mono fun r hr => ?_
    exact .part (.value halias hmapping hkeys hkey (hx.since hw') htold) hr

theorem blames_judgeMembers {name : String} {first : TypeExpr} {others : List TypeExpr}
    (halias : g.registry.isAlias name = false) :
    g.Blames w (g.judgeMembers judge first others v path)
      (g.PointsInto w P v (.classRef name (first :: others)) path) := by
  unfold judgeMembers
  split
  · rename_i second hmapping hsecond
    obtain ⟨us, rfl⟩ := List.head?_eq_some_iff.1 hsecond
    exact blames_judgeEntries hjudge hv halias hmapping
  · split
    · rename_i start stop step hrange
      refine blames_allOf fun m hm => ?_
      simp only [List.mem_cons, List.not_mem_nil, or_false] at hm
      rcases hm with rfl | rfl
      · exact (hjudge w _ first _ (.start hv hrange)).mono fun r hr => .part (.start halias hrange) hr
      · exact (hjudge w _ first _ (.stop hv hrange)).mono fun r hr => .part (.stop halias hrange) hr
    · exact blames_accepted rfl
    · exact blames_accepted rfl
    · exact blames_accepted rfl
    · refine .ite (fun _ => blames_sampled hv fun i x w' hx => ?_) fun _ => ?_
      · exact (hjudge w' x first _ (hx.seen hv)).mono fun r hr => .part (.element halias hx) hr
      · exact Ensures.bind (ensures_note _ _ (onlyLooks_pure _)) fun _ _ _ _ => blames_accepted rfl

theorem blames_judgeClassRef (name : String) (args : List TypeExpr) :
    g.Blames w (g.judgeClassRef judge name args v path) (g.PointsInto w P v (.classRef name args) path) := by
  unfold judgeClassRef
  by_cases halias : g.registry.isAlias name = true
  · rw [if_pos halias]
    refine Ensures.bind (ensures_modify fun _ => rfl) fun _ mid hmid _ => ?_
    refine Ensures.bind (ensures_demand _) fun t later hlater ht => ?_
    refine ((hjudge w v t path hv).mono fun r hr => ?_).since (hmid.trans hlater)
    exact .facet (.expansion halias ht) hr
  · have hclass : g.registry.isAlias name = false := by simpa using halias
    rw [if_neg halias]
    refine Ensures.bind (ensures_target name) fun found mid hmid _ => ?_
    cases found with
    | ofModule home => exact blames_decide _ (.own (concerns_mismatch v _ path _))
    | ofClass c =>
      refine .ite (fun _ => blames_rejected (.own (concerns_mismatch v _ path _))) fun _ => ?_
      cases args with
      | nil => exact blames_accepted rfl
      | cons first others => exact (blames_judgeMembers hjudge hv hclass).since hmid

/-- Whatever the type is, what is rejected is the value itself, or what its parts are rejected for. -/
theorem blames_judgeWith (t : TypeExpr) :
    g.Blames w (g.judgeWith judge v t path) (g.PointsInto w P v t path) := by
  cases t with
  | untyped => exact blames_accepted rfl
  | base kind => exact (blames_judgeBase hv kind).mono fun _ => .own
  | classRef name args => exact blames_judgeClassRef hjudge hv name args
  | singleton name => exact (blames_judgeSingleton name).mono fun _ => .own
  | interface name methods => exact (blames_judgeInterface hv name methods).mono fun _ => .own
  | union ts => exact blames_judgeUnion hjudge hv ts
  | intersection ts => exact blames_judgeIntersection hjudge hv ts
  | tuple ts => exact blames_judgeTuple hjudge hv ts
  | record fields extra => exact blames_judgeRecord hjudge hv fields extra
  | literal l => exact blames_decide _ (.own (concerns_mismatch v _ path _))
  | typeVar name => exact (blames_judgeTypeVar name).mono fun _ => .own
  | optional inner =>
    refine Ensures.ite (fun _ => blames_accepted rfl) fun _ => ?_
    exact (hjudge w v inner path hv).mono fun _ hr => .facet .inner hr
  | proc params result block => exact (blames_judgeProc _ params).mono fun _ => .own

/-- A value is judged as it is at the start. -/
theorem pointsInto_of_judgeUnlessDouble (t : TypeExpr) (s : Scene) :
    g.Later s.world ((g.judgeUnlessDouble judge v t path).run.run s).2.world ∧
    ∀ r, ((g.judgeUnlessDouble judge v t path).run.run s).1 = .ok (.no r) →
      g.PointsInto s.world P (s.world.resolve v) t path r := by
  have hresolved (u : Value) (hu : g.Seen u) : g.Blames s.world (do
      if ← Judging.demand (g.isAmong u g.doubles) then
        g.note .info .classifier (do
          let shown ← g.shown u
          return s!"A double ({shown}) is detected!")
        return .yes
      g.judgeWith judge u t path) (g.PointsInto s.world P u t path) := by
    refine Ensures.bind (ensures_demand _) fun _ mid hmid _ => ?_
    refine .ite (fun _ => ?_) fun _ => (blames_judgeWith hjudge hu t).since hmid
    refine Ensures.bind (ensures_note _ _ ((Inspection.shown hu).onlyLooks.map _)) fun _ _ _ _ => ?_
    exact blames_accepted rfl
  obtain ⟨hlater, hok⟩ := hresolved (s.world.resolve v) (.now s.world hv) s .refl
  exact ⟨hlater, fun r hr => hok _ hr r rfl⟩

end

end Parts

/-! ## The whole judgement -/

/-- A chain of selectors leads to a part of the value, which was judged against the type that it leads to, and was
rejected there itself. -/
structure Locates (g : Gaze) (w : World) (v : Value) (t : TypeExpr) (path : Path) (r : Mismatch)
    (chain : List Selector) (x : Value) (u : TypeExpr) (s : Scene) : Prop where
  reaches : g.Reaches w v t chain x u s.world
  path_eq : r.path = ⟨path.slot, chain ++ path.steps⟩
  concerns : r.Concerns (s.world.resolve x) u r.path
  judged : ∃ fuel, ((g.judge fuel x u r.path).run.run s).1 = .ok (.no r)

/-- A rejection at any depth is located. -/
theorem blames_judge (fuel : Nat) (hv : g.Seen v) (t : TypeExpr) (path : Path) :
    g.Blames w (g.judge fuel v t path) fun r => ∃ chain x u s, g.Locates w v t path r chain x u s := by
  induction fuel generalizing w v t path with
  | zero => exact blames_fault _
  | succ fuel ih =>
    intro s hs
    obtain ⟨hlater, hpoints⟩ := pointsInto_of_judgeUnlessDouble (fun _ _ t path hv => ih hv t path) hv t s
    refine ⟨hlater, ?_⟩
    rintro _ hverdict r rfl
    cases hpoints r hverdict with
    | own h =>
      -- the judgement that rejects the part is this very one
      obtain rfl := h.path_eq
      exact ⟨[], v, t, s, .here hs, rfl, h, fuel + 1, hverdict⟩
    | facet hu h =>
      obtain ⟨chain, x, u, s', hpart⟩ := h
      exact ⟨chain, x, u, s', .now hs (.facet hu hpart.reaches), hpart.path_eq, hpart.concerns, hpart.judged⟩
    | part hx h =>
      obtain ⟨chain, x, u, s', hpart⟩ := h
      -- the step to the part goes behind the steps from there on
      refine ⟨_, x, u, s', .now hs (.into hx hpart.reaches), ?_, hpart.concerns, hpart.judged⟩
      rw [hpart.path_eq, List.append_assoc]
      rfl

/-! ## Main statement -/

theorem Selects.typePart {t u : TypeExpr} {selector : Selector} (h : g.Selects w v t selector x u w') :
    t.Part g.registry u := by
  cases h with
  | component hu => exact .element (List.mem_of_getElem? hu)
  | element halias => exact .argument halias List.mem_cons_self
  | start halias => exact .argument halias List.mem_cons_self
  | stop halias => exact .argument halias List.mem_cons_self
  | key halias => exact .argument halias List.mem_cons_self
  | value halias => exact .argument halias (List.mem_cons_of_mem _ List.mem_cons_self)
  | field hf => exact .field hf
  | extra => exact .extra

/-- The type that is expected of a part stands in the whole type, aliases expanded. -/
theorem Reaches.within {t u : TypeExpr} {chain : List Selector} (h : g.Reaches w v t chain x u w') :
    t.Within g.registry u := by
  induction h with
  | here => exact .refl
  | now _ _ ih => exact ih
  | facet ht _ ih => exact .head ht.part ih
  | into hy _ ih => exact .head hy.typePart ih

theorem Told.next_known {items : List Value} {rest : Feed} (h : g.Told w (g.next (.known items)) (some (x, rest)) w') :
    ∃ more, items = x :: more ∧ rest = .known more := by
  obtain ⟨start, -, hrun⟩ := h
  have hnext := (answers_next_known items).quiet.2 _ (congrArg Prod.fst hrun)
  cases items with
  | nil => cases hnext
  | cons y ys => cases hnext; exact ⟨ys, rfl, rfl⟩

theorem Nth.getElem?_known {items : List Value} (h : g.Nth w (.known items) i x w') : items[i]? = some x := by
  induction i generalizing w items with
  | zero =>
    cases h with
    | first htold =>
      obtain ⟨more, rfl, -⟩ := htold.next_known
      rfl
  | succ i ih =>
    cases h with
    | later htold hx =>
      obtain ⟨more, rfl, rfl⟩ := htold.next_known
      exact ih hx

/-- Of a built-in collection it is the same element, whichever way it is come by. -/
theorem Element.getElem?_builtIn {cells : Nat → Prop} {items : List Value} (h : g.Element w v i x w')
    (hp : g.program.Separate) (hv : v.BuiltIn cells) (hcollection : v.isCollection = true)
    (hitems : v.items? = some items) : items[i]? = some x := by
  have hyields (w : World) : g.program.Yields w v items := hp.yields hv hcollection hitems
  cases h with
  | iterated hfeed hx =>
    obtain ⟨start, -, hrun⟩ := hfeed
    cases (hyields start).feed.symm.trans hrun
    exact hx.getElem?_known
  | placed hstart hsequence hsize hlimit hlarge hx =>
    rw [World.resolve_of_isCell (Value.isCell_of_isCollection hcollection)] at hsequence
    obtain ⟨start, -, hrun⟩ := hx
    exact ((hyields start).item hsequence i).2 x (congrArg Prod.fst hrun)

end Gaze

namespace Context

variable {ctx : Context} {r : Mismatch}

/-- **A rejection points at the part that was rejected.**  Its path spells a chain of selectors that leads from the
value to a part of it, the innermost first and the slot last; it names the class of the part, and the type that the part
was judged against and rejected by itself, which stands in the whole type with its aliases expanded.  All that runs
on the way are looks at the value and at what is in it.  What a selector of a position stands for is, in a built-in
collection, the element at that position. -/
theorem rejection_points_at_part {v : Value} {t : TypeExpr} {slot : String} {s : Scene} {r : Mismatch}
    (h : ((ctx.satisfies v t slot).run.run s).1 = .ok (.no r)) :
    (∃ chain x u, ∃ moment : Scene, Gaze.Reaches ⟨ctx, v⟩ s.world v t chain x u moment.world ∧
      r.path.text = " of ".intercalate (chain.map Selector.label ++ [slot]) ∧
      r.actual = (moment.world.resolve x).classOf ∧
      r.expected = u ∧ t.Within ctx.registry u ∧
      ∃ fuel, ((ctx.judge fuel x u ⟨slot, chain⟩).run.run moment).1 = .ok (.no r)) ∧
    ∀ root cells y items i x w w', ctx.program.Separate → Value.BuiltIn cells y → y.isCollection = true →
      y.items? = some items → Gaze.Element ⟨ctx, root⟩ w y i x w' → items[i]? = some x := by
  refine ⟨?_, fun _ _ _ _ _ _ _ _ hp hy hcollection hitems hx => hx.getElem?_builtIn hp hy hcollection hitems⟩
  obtain ⟨-, hrejected⟩ := Gaze.blames_judge ctx.program.depthLimit (.root : Gaze.Seen ⟨ctx, v⟩ v) t ⟨slot, []⟩ s .refl
  obtain ⟨chain, x, u, moment, hpart⟩ := hrejected _ h r rfl
  have hpath : r.path = ⟨slot, chain⟩ := by simpa using hpart.path_eq
  refine ⟨chain, x, u, moment, hpart.reaches, by rw [hpath]; rfl, hpart.concerns.actual_eq, hpart.concerns.expected_eq,
    hpart.reaches.within, ?_⟩
  rw [← hpath]
  exact hpart.judged

/-- The rejection that a judgement came to. -/
def rejection? : Except Fault Verdict → Option Mismatch
  | .ok (.no r) => some r
  | _ => none

theorem eq_no_of_rejection? {result : Except Fault Verdict} (h : rejection? result = some r) :
    result = .ok (.no r) := by
  unfold rejection? at h
  split at h
  · cases h; rfl
  · cases h

/-- A list with an element of the wrong class, in a mapping. -/
def nestedValue : Value := .mapping .dict [(.str "a", .sequence .list [.int 1, .str "x"])]

/-- A mapping of lists whose elements are integers, or nothing. -/
def nestedType : TypeExpr :=
  .classRef "Hash" [.classRef "String" [], .classRef "Array" [.union [.classRef "Integer" [], .base .nil]]]

/-- The union is named as a whole, at the element that none of its alternatives accepts. -/
theorem rejection_points_at_part_nested : ∃ r,
    ((({} : Context).satisfies nestedValue nestedType "result").run.run {}).1 = .ok (.no r) ∧
    r.path.text = "element 1 of value at 'a' of result" ∧ r.expected.render = "Integer | nil" ∧
    r.actual.typeName = "str" ∧
    ∃ chain x u, ∃ moment : Scene, Gaze.Reaches ⟨{}, nestedValue⟩ {} nestedValue nestedType chain x u moment.world ∧
      r.path.text = " of ".intercalate (chain.map Selector.label ++ ["result"]) ∧
      r.actual = (moment.world.resolve x).classOf ∧ r.expected = u := by
  have hrun : (rejection? ((({} : Context).satisfies nestedValue nestedType "result").run.run {}).1).map
      (fun r => (r.path.text, r.expected.render, r.actual.typeName)) =
      some ("element 1 of value at 'a' of result", "Integer | nil", "str") := by
    decide +kernel
  obtain ⟨r, hr, htexts⟩ := Option.map_eq_some_iff.1 hrun
  have hrejected := eq_no_of_rejection? hr
  simp only [Prod.mk.injEq] at htexts
  obtain ⟨⟨chain, x, u, moment, hreaches, htext, hactual, hexpected, -⟩, -⟩ := rejection_points_at_part hrejected
  exact ⟨r, hrejected, htexts.1, htexts.2.1, htexts.2.2, chain, x, u, moment, hreaches, htext, hactual, hexpected⟩

/-- A list that has something else at its positions than going through it gives. -/
def misplacing : Program where
  classes := [⟨.declared "Liar", [.builtin "list"], [("__getitem__", .method .ofInstance Formal.anything 0)]⟩]
  scripts := [[.answer (.value (.str "x"))]]

/-- A list of that class. -/
def misplaced : Value := .object (.declared "Liar") (some (.sequence .list [.int 1, .int 2])) []

/-- A sample asks for an element by its position, so the part that is rejected need not be one that going through the
value gives. -/
theorem placed_is_not_iterated :
    (∃ r, ((satisfies { program := misplacing, sampleSize := some 1 } misplaced
        (.classRef "Array" [.classRef "int" []]) "value").run.run {}).1 = .ok (.no r) ∧
      r.path.text = "element 0 of value" ∧ r.actual = .builtin "str") ∧
    ((misplacing.elements misplacing.invoke misplaced).run.run {}).1.toOption.map (·.map (·.classOf)) =
      some [.builtin "int", .builtin "int"] := by
  have hrun : (rejection? ((satisfies { program := misplacing, sampleSize := some 1 } misplaced
      (.classRef "Array" [.classRef "int" []]) "value").run.run {}).1).map (fun r => (r.path.text, r.actual)) =
      some ("element 0 of value", .builtin "str") := by
    decide +kernel
  obtain ⟨r, hr, htexts⟩ := Option.map_eq_some_iff.1 hrun
  simp only [Prod.mk.injEq] at htexts
  exact ⟨⟨r, eq_no_of_rejection? hr, htexts⟩, by decide +kernel⟩

end Context

end Conformance
