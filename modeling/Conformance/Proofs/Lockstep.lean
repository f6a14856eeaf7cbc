import Mathlib
import Conformance.Judgement

/-!
# Judgements in lockstep

Judgements against types that are built alike look into a value in the same way, and part only where they judge parts of
the types.  `Lockstep` says of a relation between judgements that it is kept by all that judgements are made of, if both
look into the value by computations of some kind (`Inspecting`).  What the value is rejected for does not matter.

Main statement: `Lockstep.judgeUnlessDouble`.  Such a relation holds of the judgements against two types as soon as the
types are `Alike` and it holds of the judgements against their parts, and where a type variable is met.
-/

namespace Conformance

variable {e : Fault}

namespace Fault

/-- Is the fault about looking into a value, and not about a name or a text? -/
def isInspection : Fault → Bool
  | raised _ | tooDeep | notAClass | emptySample | negativeSample | limitOutOfRange => true
  | _ => false

end Fault

/-! ## Types that are built alike -/

/-- The fields are the same but for their types, which are related. -/
structure Field.Alike (T : TypeExpr → TypeExpr → Prop) (f f' : Field TypeExpr) : Prop where
  key : f.key = f'.key
  required : f.required = f'.required
  type : T f.type f'.type

/-- The capabilities are the same but for their parameters, which are related. -/
structure Capability.Alike (S : Params TypeExpr → Params TypeExpr → Prop) (c c' : Capability TypeExpr) : Prop where
  name : c.name = c'.name
  explicit : c.explicit = c'.explicit
  params : Option.Rel S c.params c'.params

/-- The same callables fit the two parameter lists. -/
def Params.FitAlike (p p' : Params TypeExpr) : Prop := ∀ formals, Program.fits formals p = Program.fits formals p'

theorem Capability.Alike.refl (c : Capability TypeExpr) : c.Alike Params.FitAlike c := by
  refine ⟨rfl, rfl, ?_⟩
  cases c.params with
  | none => exact .none
  | some p => exact .some fun _ => rfl

/-- The types are the same but for their parts, which are related.  An alias has its expansion as its only part, and
interfaces and proc types have none. -/
inductive TypeExpr.Alike (r : Registry) (T : TypeExpr → TypeExpr → Prop) : TypeExpr → TypeExpr → Prop
  | untyped : Alike r T .untyped .untyped
  | base (kind : Base) : Alike r T (.base kind) (.base kind)
  | expansion {name : String} {args args' : List TypeExpr} (halias : r.isAlias name = true)
      (h : ∀ t, r.expansionOf name = .ok t → T t t) : Alike r T (.classRef name args) (.classRef name args')
  | classRef {name : String} {args args' : List TypeExpr} (halias : r.isAlias name = false)
      (h : List.Forall₂ T args args') : Alike r T (.classRef name args) (.classRef name args')
  | singleton (name : String) : Alike r T (.singleton name) (.singleton name)
  | interface (name : String) {methods methods' : List (Capability TypeExpr)}
      (h : List.Forall₂ (Capability.Alike Params.FitAlike) methods methods') :
      Alike r T (.interface name methods) (.interface name methods')
  | union {ts ts' : List TypeExpr} (h : List.Forall₂ T ts ts') : Alike r T (.union ts) (.union ts')
  | intersection {ts ts' : List TypeExpr} (h : List.Forall₂ T ts ts') : Alike r T (.intersection ts) (.intersection ts')
  | tuple {ts ts' : List TypeExpr} (h : List.Forall₂ T ts ts') : Alike r T (.tuple ts) (.tuple ts')
  | record {fields fields' : List (Field TypeExpr)} {extra extra' : Option TypeExpr}
      (hfields : List.Forall₂ (Field.Alike T) fields fields') (hextra : Option.Rel T extra extra') :
      Alike r T (.record fields extra) (.record fields' extra')
  | literal (l : Literal) : Alike r T (.literal l) (.literal l)
  | typeVar (name : String) : Alike r T (.typeVar name) (.typeVar name)
  | optional {t t' : TypeExpr} (h : T t t') : Alike r T (.optional t) (.optional t')
  | proc {params params' : Params TypeExpr} {result result' : TypeExpr} {block block' : Option (Block TypeExpr)}
      (h : params.FitAlike params') : Alike r T (.proc params result block) (.proc params' result' block')

/-! ## Looking into values -/

/-- A value is not in a cell any more once it is looked into. -/
theorem World.isCell_resolve (w : World) (v : Value) : (w.resolve v).isCell = false := by
  cases v with
  | cell i =>
    rw [resolve, held]
    cases h : (w.cells[i]?).filter (!·.isCell) with
    | none => rfl
    | some u => simpa using (Option.filter_eq_some_iff.1 h).2
  | _ => rfl

namespace Context

/-- The value is neither in a cell nor a double, so that judging it looks at the kind of the type next. -/
structure Plain (ctx : Context) (v : Value) : Prop where
  isCell : v.isCell = false
  isDouble : ctx.isAmong v ctx.doubles = .ok false

theorem isAmong_error_isInspection {ctx : Context} {v : Value} {ts : List Target} (h : ctx.isAmong v ts = .error e) :
    e.isInspection = true := by
  induction ts with
  | nil => cases h
  | cons t ts ih =>
    cases t with
    | ofModule name => cases h; rfl
    | ofClass c =>
      unfold isAmong at h
      split at h
      · cases h
      · exact ih h

end Context

namespace Judging

variable {name : String}

/-- A property that computations have which are made of computations that have it, and that those have which look into
values, take note of something, or end in faults of some kind. -/
structure Inspecting (faults : Fault → Prop) (P : (α : Type) → Judging α → Prop) : Prop where
  inspection : ∀ e : Fault, e.isInspection = true → faults e
  pure : ∀ {α : Type} (a : α), P α (pure a)
  bind : ∀ {α β : Type} {m : Judging α} {f : α → Judging β}, P α m → (∀ a, P β (f a)) → P β (m >>= f)
  world : ∀ {α : Type} {f : World → Judging α}, (∀ w, P α (f w)) → P α (get >>= fun s => f s.world)
  demand : ∀ {α : Type} {result : Except Fault α}, (∀ e, result = .error e → faults e) → P α (demand result)
  running : ∀ {α : Type} (run : Run α), P α (running run)
  happen : ∀ e : Event, P Unit (happen e)

namespace Inspecting

variable {α : Type} {faults : Fault → Prop} {P : (α : Type) → Judging α → Prop} (hP : Inspecting faults P)
  (ctx : Context)

include hP

omit hP in
theorem ite {m n : Judging α} {c : Prop} [Decidable c] (hm : P α m) (hn : P α n) : P α (if c then m else n) := by
  split
  · exact hm
  · exact hn

theorem decide (accepted : Bool) (m : Mismatch) : P Verdict (Judging.decide accepted m) := hP.pure _

theorem andThen {m n : Judging Verdict} (hm : P Verdict m) (hn : P Verdict n) : P Verdict (m.andThen n) :=
  hP.bind hm fun _ => ite hn (hP.pure _)

theorem note (level : LogLevel) (source : LogSource) (message : Run String) :
    P _ (ctx.note level source message) :=
  ite (hP.bind (hP.running _) fun _ => hP.happen _) (hP.pure _)

theorem judgeBase (kind : Base) (v : Value) (path : Path) : P _ (ctx.judgeBase kind v path) := by
  cases kind
  case selfType | instanceType | classType =>
    unfold Context.judgeBase
    dsimp only
    split
    · exact hP.bind (hP.note ctx _ _ _) fun _ => hP.pure _
    · exact hP.decide _ _
  all_goals exact hP.pure _

theorem target (h : ∀ e, ctx.registry.classOf name = .error e → faults e) : P _ (ctx.target name) :=
  hP.bind (hP.demand h) fun _ => hP.bind (hP.happen _) fun _ => hP.pure _

theorem judgeSingleton (h : ∀ e, ctx.registry.classOf name = .error e → faults e) (v : Value) (path : Path) :
    P _ (ctx.judgeSingleton name v path) := by
  refine hP.bind (hP.target ctx h) fun found => ?_
  cases found <;> exact hP.decide _ _

theorem capability? (v : Value) (name : String) : P _ (ctx.capability? v name) :=
  hP.bind (hP.running _) fun found => hP.world (f := fun w => Pure.pure (found.map (·.resolved w))) fun _ => hP.pure _

end Inspecting

/-! ## Relations between judgements -/

/-- A relation between judgements that those are in which are made alike of such inspections, and of judgements that are
in it.  What they reject a value for may differ. -/
structure Lockstep (faults : Fault → Prop) (P : (α : Type) → Judging α → Prop)
    (R : Judging Verdict → Judging Verdict → Prop) : Prop extends Inspecting faults P where
  settled : ∀ verdict : Verdict, R (Pure.pure verdict) (Pure.pure verdict)
  rejected : ∀ m m' : Mismatch, R (Pure.pure (.no m)) (Pure.pure (.no m'))
  inspect : ∀ {α : Type} {m : Judging α} {f f' : α → Judging Verdict}, P α m → (∀ a, R (f a) (f' a)) →
    R (m >>= f) (m >>= f')
  inWorld : ∀ {f g : World → Judging Verdict}, (∀ w, R (f w) (g w)) →
    R (get >>= fun s => f s.world) (get >>= fun s => g s.world)
  andThen : ∀ {m m' n n' : Judging Verdict}, R m m' → R n n' → R (m.andThen n) (m'.andThen n')
  attempt : ∀ {m m' : Judging Verdict} {ms ms' : List (Judging Verdict)} {reject reject' : List Mismatch → Mismatch},
    R m m' → (∀ failures failures', R (firstOf reject failures ms) (firstOf reject' failures' ms')) →
    ∀ failures failures', R (firstOf reject failures (m :: ms)) (firstOf reject' failures' (m' :: ms'))

/-- What a relation asks of a type itself, its parts apart: where a name is looked up, the faults of that are allowed, and
where a type variable is judged, the judgement is related to itself. -/
def Admits (faults : Fault → Prop) (P : Judging Verdict → Prop) (ctx : Context) (slot : String) : TypeExpr → Prop
  | .classRef name _ =>
    (ctx.registry.isAlias name = true → ∀ e, ctx.registry.expansionOf name = .error e → faults e) ∧
    (ctx.registry.isAlias name = false → ∀ e, ctx.registry.classOf name = .error e → faults e)
  | .singleton name => ∀ e, ctx.registry.classOf name = .error e → faults e
  | .typeVar name => ∀ v steps, P (ctx.judgeTypeVar name v ⟨slot, steps⟩)
  | _ => True

/-- Where every fault is allowed, only the type variables are asked of. -/
theorem admits_of_typeVar {P : Judging Verdict → Prop} {ctx : Context} {slot : String} {t : TypeExpr}
    (h : ∀ x, t = .typeVar x → ∀ v steps, P (ctx.judgeTypeVar x v ⟨slot, steps⟩)) : Admits (fun _ => True) P ctx slot t := by
  cases t with
  | typeVar x => exact h x rfl
  | classRef name args => exact ⟨fun _ _ _ => trivial, fun _ _ _ => trivial⟩
  | singleton name => exact fun _ _ => trivial
  | _ => trivial

namespace Lockstep

variable {faults : Fault → Prop} {P : (α : Type) → Judging α → Prop} {R : Judging Verdict → Judging Verdict → Prop}
  (hR : Lockstep faults P R)

include hR

theorem same {m : Judging Verdict} (hm : P Verdict m) : R m m := by
  have := hR.inspect hm hR.settled
  rwa [bind_pure] at this

theorem fault (h : e.isInspection = true) : R (Judging.demand (.error e)) (Judging.demand (.error e)) :=
  hR.same (hR.demand fun e' he => by cases he; exact hR.inspection e h)

theorem demand_bind {α : Type} {result : Except Fault α} {f f' : α → Judging Verdict}
    (herror : ∀ e, result = .error e → faults e) (hok : ∀ a, result = .ok a → R (f a) (f' a)) :
    R (Judging.demand result >>= f) (Judging.demand result >>= f') := by
  cases result with
  | error e =>
    have hstop (g : α → Judging Verdict) : (Judging.demand (.error e) >>= g) = Judging.demand (.error e) := rfl
    rw [hstop, hstop]
    refine hR.same (hR.demand fun e' he => herror e' ?_)
    cases he
    rfl
  | ok a => exact hok a rfl

omit hR in
theorem ite {m m' n n' : Judging Verdict} {c : Prop} [Decidable c] (hm : c → R m m') (hn : ¬c → R n n') :
    R (if c then m else n) (if c then m' else n') := by
  split
  · exact hm ‹_›
  · exact hn ‹_›

theorem decide (accepted : Bool) (m m' : Mismatch) : R (Judging.decide accepted m) (Judging.decide accepted m') := by
  cases accepted
  · exact hR.rejected m m'
  · exact hR.settled .yes

theorem allOf {ms ms' : List (Judging Verdict)} (h : List.Forall₂ R ms ms') :
    R (Judging.allOf ms) (Judging.allOf ms') := by
  induction h with
  | nil => exact hR.settled .yes
  | cons hm _ ih => exact hR.andThen hm ih

theorem firstOf {reject reject' : List Mismatch → Mismatch} {ms ms' : List (Judging Verdict)}
    (h : List.Forall₂ R ms ms') (failures failures' : List Mismatch) :
    R (Judging.firstOf reject failures ms) (Judging.firstOf reject' failures' ms') := by
  induction h generalizing failures failures' with
  | nil => exact hR.rejected _ _
  | cons hm _ ih => exact hR.attempt hm ih failures failures'

/-- Of the parameters of a method, all that is asked is what fits them. -/
theorem judgeInterfaces (ctx : Context) {methods methods' : List (Capability TypeExpr)}
    (h : List.Forall₂ (Capability.Alike Params.FitAlike) methods methods') (v : Value) (path : Path) :
    R (ctx.judgeInterface name methods v path) (ctx.judgeInterface name methods' v path) := by
  refine hR.allOf (List.forall₂_map_left_iff.2 (List.forall₂_map_right_iff.2 (h.imp fun c c' hc => ?_)))
  obtain ⟨method, params, explicit⟩ := c
  obtain ⟨_, params', _⟩ := c'
  obtain ⟨rfl, rfl, hparams⟩ := hc
  unfold Context.lacking?
  rw [bind_assoc, bind_assoc]
  refine hR.inspect (hR.capability? ctx v method) fun found => ?_
  dsimp only at hparams ⊢
  cases found.filter ctx.program.canCall with
  | none => exact hR.rejected _ _
  | some found =>
    dsimp only
    split
    · exact hR.rejected _ _
    · cases hparams with
      | none => exact hR.settled .yes
      | @some p p' hfits =>
        rw [Option.bind_some, Option.bind_some, hfits]
        cases Program.fits (ctx.program.attributeFormals? found) p' with
        | true => exact hR.settled .yes
        | false => exact hR.rejected _ _

/-! ## Samples -/

section Samples

variable (ctx : Context) {look look' : Nat → Value → Judging Verdict} (hlook : ∀ i v, R (look i v) (look' i v))

include hlook

theorem visit {wanted : Nat → Bool} {done done' : Judging Verdict} (hdone : R done done') (left i : Nat) (feed : Feed) :
    R (ctx.visit wanted look done left i feed) (ctx.visit wanted look' done' left i feed) := by
  induction left generalizing i feed with
  | zero => exact hdone
  | succ left ih =>
    refine hR.inspect (hR.running _) fun taken => ?_
    cases taken with
    | none => exact hR.settled .yes
    | some e => exact hR.andThen (ite (fun _ => hlook i e.1) fun _ => hR.settled .yes) (ih (i + 1) e.2)

theorem visitAt (v : Value) (wanted : List Nat) : R (ctx.visitAt v look wanted) (ctx.visitAt v look' wanted) := by
  induction wanted with
  | nil => exact hR.settled .yes
  | cons i rest ih => exact hR.inspect (hR.running _) fun w => hR.andThen (hlook i w) ih

theorem carryOut (v : Value) (plan : Sampling.Plan) : R (ctx.carryOut v look plan) (ctx.carryOut v look' plan) := by
  cases plan with
  | all =>
    refine hR.inspect (hR.running _) fun feed =>
      hR.inWorld (f := fun w => ctx.visit _ look _ (feed.bound _ w) 0 feed)
        (g := fun w => ctx.visit _ look' _ (feed.bound _ w) 0 feed) fun _ => ?_
    exact hR.visit ctx hlook (hR.fault rfl) _ _ _
  | first limit =>
    refine hR.inspect (hR.running _) fun feed => hR.inspect (hR.demand fun e he => ?_) fun count => ?_
    · unfold Sampling.firstCount at he
      split at he
      · cases he; exact hR.inspection _ rfl
      · cases he
    · exact hR.visit ctx hlook (hR.settled .yes) _ _ _
  | pickOut wanted => exact hR.visitAt ctx hlook v wanted
  | goThrough wanted =>
    refine hR.inspect (hR.running _) fun feed => ?_
    split
    · exact hR.visit ctx hlook (hR.settled .yes) _ _ _
    · refine hR.inspect (hR.running _) fun taken => ?_
      cases taken with
      | none => exact hR.settled .yes
      | some _ => exact hR.fault rfl

omit hR hlook in
theorem plan_error_isInspection {access : Sampling.Access} {size : Nat} {limit : Option Int}
    (h : Sampling.plan access size limit = .error e) : e.isInspection = true := by
  unfold Sampling.plan at h
  split at h
  · cases h
  · split at h
    · cases h
    · split at h
      · cases h; rfl
      · cases h

theorem sampled (v : Value) : R (ctx.sampled v look) (ctx.sampled v look') := by
  have hplan (size : Nat) (access : Sampling.Access) :
      R (do ctx.carryOut v look (← Judging.demand (Sampling.plan access size ctx.sampleSize)))
        (do ctx.carryOut v look' (← Judging.demand (Sampling.plan access size ctx.sampleSize))) :=
    hR.inspect (hR.demand fun e he => hR.inspection e (plan_error_isInspection he)) fun plan =>
      hR.carryOut ctx hlook v plan
  refine hR.inspect (hR.world (f := fun w => Pure.pure (w.resolve v)) fun _ => hR.pure _) fun u => ite (fun _ => ?_) fun _ => ?_
  · exact hR.inspect (hR.running _) fun size => hplan size _
  · exact hR.inspect (hR.pure 0) fun size => hplan size _

end Samples

/-! ## Checks of parts -/

section Parts

variable {ctx : Context} {T : TypeExpr → TypeExpr → Prop} {judge judge' : Judge} {path : Path}
  (hjudge : ∀ t t', T t t' → ∀ v steps, R (judge v t ⟨path.slot, steps⟩) (judge' v t' ⟨path.slot, steps⟩))

include hjudge

omit hR in
theorem forall₂_judge {ts ts' : List TypeExpr} (h : List.Forall₂ T ts ts') (v : Value) :
    List.Forall₂ R (ts.map fun t => judge v t path) (ts'.map fun t => judge' v t path) :=
  List.forall₂_map_left_iff.2 (List.forall₂_map_right_iff.2 (h.imp fun _ _ ht => hjudge _ _ ht v path.steps))

theorem judgeElements {ts ts' : List TypeExpr} (h : List.Forall₂ T ts ts') (i : Nat) (feed : Feed) :
    R (ctx.judgeElements judge path i feed ts) (ctx.judgeElements judge' path i feed ts') := by
  induction h generalizing i feed with
  | nil => exact hR.inspect (hR.running _) fun _ => hR.settled .yes
  | cons ht _ ih =>
    refine hR.inspect (hR.running _) fun taken => ?_
    cases taken with
    | none => exact hR.settled .yes
    | some e => exact hR.andThen (hjudge _ _ ht e.1 _) (ih (i + 1) e.2)

theorem judgeTuple {ts ts' : List TypeExpr} (h : List.Forall₂ T ts ts') (v : Value) :
    R (ctx.judgeTuple judge ts v path) (ctx.judgeTuple judge' ts' v path) := by
  unfold Context.judgeTuple
  rw [h.length_eq]
  refine ite (fun _ => hR.rejected _ _) fun _ => hR.inspect (hR.running _) fun size => ite (fun _ => ?_) fun _ => ?_
  · exact hR.inspect (hR.running _) fun _ => hR.rejected _ _
  · exact hR.inspect (hR.running _) fun feed => hR.judgeElements hjudge h 0 feed

theorem judgeFields {fields fields' : List (Field TypeExpr)} (h : List.Forall₂ (Field.Alike T) fields fields')
    (v : Value) (reject reject' : Reason → Mismatch) :
    R (ctx.judgeFields judge v path reject fields) (ctx.judgeFields judge' v path reject' fields') := by
  induction h with
  | nil => exact hR.settled .yes
  | @cons f f' _ _ hf _ ih =>
    unfold Context.judgeFields
    rw [← hf.key, ← hf.required]
    refine hR.inspect (hR.running _) fun has => ite (fun _ => ?_) fun _ => ite (fun _ => hR.rejected _ _) fun _ => ih
    exact hR.inspect (hR.running _) fun w => hR.andThen (hjudge _ _ hf.type w _) ih

omit hR hjudge in
theorem isDeclared_eq {fields fields' : List (Field TypeExpr)} (h : List.Forall₂ (Field.Alike T) fields fields')
    (key : Value) : ctx.isDeclared fields key = ctx.isDeclared fields' key := by
  have hkeys : (fields.map fun f => Value.ofKey f.key) = fields'.map fun f => Value.ofKey f.key := by
    induction h with
    | nil => rfl
    | cons hf _ ih => rw [List.map_cons, List.map_cons, hf.key, ih]
  rw [Context.isDeclared, Context.isDeclared, hkeys]

theorem judgeOthers {fields fields' : List (Field TypeExpr)} {extra extra' : Option TypeExpr}
    (hfields : List.Forall₂ (Field.Alike T) fields fields') (hextra : Option.Rel T extra extra') (v : Value)
    (reject reject' : Reason → Mismatch) (fuel : Nat) (feed : Feed) :
    R (ctx.judgeOthers judge fields extra v path reject fuel feed)
      (ctx.judgeOthers judge' fields' extra' v path reject' fuel feed) := by
  induction fuel generalizing feed with
  | zero => exact hR.fault rfl
  | succ fuel ih =>
    refine hR.inspect (hR.running _) fun taken => ?_
    cases taken with
    | none => exact hR.settled .yes
    | some e =>
      dsimp only
      rw [isDeclared_eq hfields]
      refine hR.inspect (hR.running _) fun declared => ite (fun _ => ih e.2) fun _ => ?_
      cases hextra with
      | none => exact hR.inspect (hR.running _) fun _ => hR.rejected _ _
      | some ht =>
        refine hR.inspect (hR.running _) fun w => hR.inspect (hR.running _) fun shown => ?_
        exact hR.andThen (hjudge _ _ ht w _) (ih e.2)

theorem judgeRecord {fields fields' : List (Field TypeExpr)} {extra extra' : Option TypeExpr}
    (hfields : List.Forall₂ (Field.Alike T) fields fields') (hextra : Option.Rel T extra extra') (v : Value) :
    R (ctx.judgeRecord judge fields extra v path) (ctx.judgeRecord judge' fields' extra' v path) := by
  refine ite (fun _ => hR.rejected _ _) fun _ => hR.andThen (hR.judgeFields hjudge hfields v _ _) ?_
  refine hR.inspect (hR.running _) fun feed =>
    hR.inWorld (f := fun w => ctx.judgeOthers judge fields extra v path _ (feed.bound _ w) feed)
      (g := fun w => ctx.judgeOthers judge' fields' extra' v path _ (feed.bound _ w) feed) fun _ => ?_
  exact hR.judgeOthers hjudge hfields hextra v _ _ _ feed

theorem judgeEntries {first first' second second' : TypeExpr} (hfirst : T first first') (hsecond : T second second')
    (v : Value) : R (ctx.judgeEntries judge first second v path) (ctx.judgeEntries judge' first' second' v path) := by
  refine hR.inspect (hR.running _) fun keys => hR.sampled ctx (fun _ key => ?_) keys
  refine hR.inspect (hR.running _) fun shown => hR.andThen (hjudge _ _ hfirst key _) ?_
  exact hR.inspect (hR.running _) fun w => hR.inspect (hR.running _) fun _ => hjudge _ _ hsecond w _

theorem judgeMembers {first first' : TypeExpr} {others others' : List TypeExpr} (hfirst : T first first')
    (hothers : List.Forall₂ T others others') (v : Value) :
    R (ctx.judgeMembers judge first others v path) (ctx.judgeMembers judge' first' others' v path) := by
  have helements : R (ctx.sampled v fun i w => judge w first (path.into (.element i)))
      (ctx.sampled v fun i w => judge' w first' (path.into (.element i))) :=
    hR.sampled ctx (fun _ w => hjudge _ _ hfirst w _) v
  have hbounds (start stop : Int) :
      R (Judging.allOf [judge (.int start) first (path.into .start), judge (.int stop) first (path.into .stop)])
        (Judging.allOf [judge' (.int start) first' (path.into .start), judge' (.int stop) first' (path.into .stop)]) :=
    hR.allOf (.cons (hjudge _ _ hfirst _ _) (.cons (hjudge _ _ hfirst _ _) .nil))
  have hhead : Option.Rel T others.head? others'.head? := by
    cases hothers with
    | nil => exact .none
    | cons h _ => exact .some h
  unfold Context.judgeMembers
  generalize ctx.isContainer v "Mapping" = mapping
  generalize others.head? = second, others'.head? = second' at hhead
  generalize v.core = core
  cases hhead <;> cases mapping
  case some.true h => exact hR.judgeEntries hjudge hfirst h v
  all_goals
    cases core with
    | range start stop step => exact hbounds start stop
    | str s => exact hR.settled .yes
    | bytes kind bs =>
      cases kind
      case bytes | bytearray => exact hR.settled .yes
      all_goals exact ite (fun _ => helements) fun _ => hR.inspect (hR.note ctx _ _ _) fun _ => hR.settled .yes
    | _ => exact ite (fun _ => helements) fun _ => hR.inspect (hR.note ctx _ _ _) fun _ => hR.settled .yes

theorem judgeClassRef {args args' : List TypeExpr}
    (hadm : Admits faults (fun m => R m m) ctx path.slot (.classRef name args))
    (h : TypeExpr.Alike ctx.registry T (.classRef name args) (.classRef name args')) (v : Value) :
    R (ctx.judgeClassRef judge name args v path) (ctx.judgeClassRef judge' name args' v path) := by
  unfold Context.judgeClassRef
  cases h with
  | expansion halias hexpansion =>
    rw [if_pos halias, if_pos halias]
    exact hR.inspect (hR.happen _) fun _ =>
      hR.demand_bind (hadm.1 halias) fun t ht => hjudge t t (hexpansion t ht) v path.steps
  | classRef halias hargs =>
    rw [if_neg (by simp [halias]), if_neg (by simp [halias])]
    refine hR.inspect (hR.target ctx (hadm.2 halias)) fun found => ?_
    cases found with
    | ofModule home => exact hR.decide _ _ _
    | ofClass c =>
      refine ite (fun _ => hR.rejected _ _) fun _ => ?_
      cases hargs with
      | nil => exact hR.settled .yes
      | cons hfirst hothers => exact hR.judgeMembers hjudge hfirst hothers v

variable (path) in
theorem judgeWith {t t' : TypeExpr} (hadm : Admits faults (fun m => R m m) ctx path.slot t)
    (h : t.Alike ctx.registry T t') (v : Value) :
    R (ctx.judgeWith judge v t path) (ctx.judgeWith judge' v t' path) := by
  cases h with
  | untyped => exact hR.settled .yes
  | base kind => exact hR.same (hR.judgeBase ctx kind v path)
  | expansion halias h => exact hR.judgeClassRef hjudge hadm (.expansion halias h) v
  | classRef halias h => exact hR.judgeClassRef hjudge hadm (.classRef halias h) v
  | singleton name => exact hR.same (hR.judgeSingleton ctx hadm v path)
  | interface name h => exact hR.judgeInterfaces ctx h v path
  | union h => exact hR.firstOf (forall₂_judge hjudge h v) [] []
  | intersection h => exact hR.allOf (forall₂_judge hjudge h v)
  | tuple h => exact hR.judgeTuple hjudge h v
  | record hfields hextra => exact hR.judgeRecord hjudge hfields hextra v
  | literal l => exact hR.decide _ _ _
  | typeVar name => exact hadm v path.steps
  | optional h => exact ite (fun _ => hR.settled .yes) fun _ => hjudge _ _ h v path.steps
  | proc h =>
    refine ite (fun _ => hR.rejected _ _) fun _ => ?_
    rw [h]
    exact hR.decide _ _ _

end Parts

/-- Judgements are related if they are where the value is looked into, which is neither in a cell then nor a double. -/
theorem judgeUnlessDouble {ctx : Context} {judge judge' : Judge} {t t' : TypeExpr} {path : Path}
    (h : ∀ u, ctx.Plain u → R (ctx.judgeWith judge u t path) (ctx.judgeWith judge' u t' path)) (v : Value) :
    R (ctx.judgeUnlessDouble judge v t path) (ctx.judgeUnlessDouble judge' v t' path) := by
  have hnow (u : Value) (hcell : u.isCell = false) :
      R (do
          if ← Judging.demand (ctx.isAmong u ctx.doubles) then
            ctx.note .info .classifier (do
              let shown ← ctx.shown u
              return s!"A double ({shown}) is detected!")
            return .yes
          ctx.judgeWith judge u t path)
        (do
          if ← Judging.demand (ctx.isAmong u ctx.doubles) then
            ctx.note .info .classifier (do
              let shown ← ctx.shown u
              return s!"A double ({shown}) is detected!")
            return .yes
          ctx.judgeWith judge' u t' path) := by
    refine hR.demand_bind (fun e he => hR.inspection e (Context.isAmong_error_isInspection he)) fun isDouble hdouble => ?_
    cases isDouble with
    | true => exact hR.inspect (hR.note ctx _ _ _) fun _ => hR.settled .yes
    | false => exact h u ⟨hcell, hdouble⟩
  exact hR.inWorld fun w => hnow (w.resolve v) (w.isCell_resolve v)

end Lockstep

end Judging

end Conformance
