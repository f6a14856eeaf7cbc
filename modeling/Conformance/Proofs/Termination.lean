import Conformance.Proofs.Descent

/-!
# Judgements come to an end

A finite value is judged against any type of a guarded registry whose names all mean something, with any sample size
and any bindings, and the judgement ends in a verdict: it never goes deeper than `Registry.recursionBound`, although
aliases may lead back to themselves.  There are two other ends.  A sample cannot be taken, with a size that is not
positive or too large to be counted up to (`Sampling.IsProper`); or a key cannot be shown, because an integer in it has
too many digits (`Context.Showable`).

`Judging.Ends` says of a computation that it gives a result, or one of some faults.  Each way to put judgements together
keeps that (`rules_concludes`).  The descent is by fuel, and the budget of a judgement pays for those that it leads to.
-/

namespace Conformance

/-- Is it the fault of going too deep? -/
def Fault.isRecursion : Fault → Bool
  | tooDeep => true
  | raised r => r.error == .builtin "RecursionError"
  | _ => false

/-- A collection can be sampled with such a limit: none, or a positive one that first elements can be counted up to. -/
def Sampling.IsProper (limit : Option Int) : Prop := ∀ k, limit = some k → 0 < k ∧ k ≤ largestLimit

open Run

namespace Judging

variable {α β : Type} {w : World} {E : Fault → Prop}

variable {Q : α → Prop}

/-- From a state of the program the computation gives something that has the property and leaves the state as it is, or
it ends in one of the faults. -/
def Ends (w : World) (E : Fault → Prop) (m : Judging α) (Q : α → Prop) : Prop :=
  ∀ s, s.world = w → (∃ a s', m.run.run s = (.ok a, s') ∧ s'.world = w ∧ Q a)
    ∨ ∃ e s', m.run.run s = (.error e, s') ∧ E e

/-- The judgement ends in a verdict, or in one of the faults. -/
abbrev Concludes (w : World) (E : Fault → Prop) (m : Judging Verdict) : Prop := Ends w E m fun _ => True

theorem ends_pure {a : α} (ha : Q a) : Ends w E (pure a) Q :=
  fun s hs => .inl ⟨a, s, rfl, hs, ha⟩

theorem ends_get : Ends w E (get : Judging Scene) (·.world = w) :=
  fun s hs => .inl ⟨s, s, rfl, hs, hs⟩

theorem Ends.bind {m : Judging α} {f : α → Judging β} {R : β → Prop} (hm : Ends w E m Q)
    (hf : ∀ a, Q a → Ends w E (f a) R) : Ends w E (m >>= f) R := by
  intro s hs
  rw [run_bind]
  obtain ⟨a, s', hrun, hs', ha⟩ | ⟨e, s', hrun, he⟩ := hm s hs
  · rw [hrun]
    exact hf a ha s' hs'
  · rw [hrun]
    exact .inr ⟨e, s', rfl, he⟩

theorem Ends.ite {c : Prop} [Decidable c] {m m' : Judging α} (hm : Ends w E m Q) (hm' : Ends w E m' Q) :
    Ends w E (if c then m else m') Q := by
  split
  · exact hm
  · exact hm'

theorem Ends.andThen {first second : Judging Verdict} (hfirst : Concludes w E first)
    (hsecond : Concludes w E second) : Concludes w E (first.andThen second) :=
  hfirst.bind fun _ _ => hsecond.ite (ends_pure trivial)

theorem Ends.tentatively {m : Judging Verdict} (hm : Concludes w E m) : Concludes w E m.tentatively := by
  intro s hs
  rw [run_tentatively]
  obtain ⟨verdict, s', hrun, hs', -⟩ | ⟨e, s', hrun, he⟩ := hm s hs
  · rw [hrun]
    refine .inl ⟨verdict, _, rfl, ?_, trivial⟩
    split
    · exact hs'
    · exact hs'
  · rw [hrun]
    exact .inr ⟨e, _, rfl, he⟩

theorem ends_firstOf {ι : Type} {xs : List ι} {f : ι → Judging Verdict} (rejected : List Mismatch → Mismatch)
    (failures : List Mismatch) (h : ∀ x ∈ xs, Concludes w E (f x)) :
    Concludes w E (firstOf rejected failures (xs.map f)) := by
  induction xs generalizing failures with
  | nil => exact ends_pure trivial
  | cons x xs ih =>
    have hrest := fun failures => ih failures fun y hy => h y (List.mem_cons_of_mem x hy)
    rw [List.map_cons, firstOf]
    refine (h x List.mem_cons_self).tentatively.bind fun verdict _ => ?_
    cases verdict with
    | no m => exact hrest _
    | yes | maybe => exact ends_pure trivial

theorem rules_concludes (w : World) (E : Fault → Prop) (slot : String) :
    Rules w E slot slot (alone fun _ m => Concludes w E m) where
  mono h _ := h
  accepted _ := ends_pure trivial
  rejected _ _ _ _ := ends_pure trivial
  inspect {α F m m' f f' result} hm _ hfaults hf := by
    intro s hs
    obtain ⟨events, hrun⟩ := hm s hs
    rw [run_bind, hrun]
    cases result with
    | error e => exact .inr ⟨e, _, rfl, hfaults e rfl⟩
    | ok a => exact hf a rfl { s with events } hs
  world {F f g} h := by
    rintro s rfl
    exact h s rfl
  andThen _ hfirst hsecond := Ends.andThen hfirst hsecond

end Judging

namespace Context

open Judging

variable {ctx : Context} {w : World} {E : Fault → Prop} {v : Value} {path : Path} {n : Nat} {showable : Prop}

/-! ## Samples -/

/-- What is shown of the value while it is judged has no integer with too many digits: the keys of a mapping, and the
value itself if there is somebody to read the records. -/
structure CanShow (ctx : Context) (w : World) (v : Value) : Prop where
  keys : ∀ kind entries, v = .mapping kind entries → ∀ key ∈ entries.map (·.1), (w.view key).Legible
  whole : ctx.logging = true → (w.view v).Legible

/-- So it is with everything that the value is made of. -/
abbrev Showable (ctx : Context) (w : World) (v : Value) : Prop := v.Throughout w (ctx.CanShow w)

/-- The faults that a judgement may end in: a sample that cannot be taken, and an integer that cannot be shown. -/
def Strays (ctx : Context) (showable : Prop) (e : Fault) : Prop :=
  (¬ Sampling.IsProper ctx.sampleSize ∧ e.isRecursion = false) ∨ (¬ showable ∧ e = .raised .tooManyDigits)

theorem Strays.isRecursion {showable : Prop} {e : Fault} (h : ctx.Strays showable e) : e.isRecursion = false := by
  obtain ⟨-, he⟩ | ⟨-, rfl⟩ := h
  · exact he
  · rfl

/-- What a sample makes of an error of the program is no fault of going too deep, if the error is none. -/
theorem inspects_sampling_error {α : Type} {run : Run α} {Q : α → Prop} {r : Raised}
    (hrun : run.run.run w = (.error r, w)) (hr : r.error ≠ .builtin "RecursionError")
    (hE : ∀ e : Fault, e.isRecursion = false → E e) : Inspects w E (ctx.sampling run) Q := by
  have hcaught : ∃ r' : Raised, r'.error ≠ .builtin "RecursionError" ∧
      (tryCatch run fun r => if ctx.program.isSubclass r.error (.builtin "StopIteration") then
          throw (.builtin "RuntimeError" "generator raised StopIteration") else throw r).run.run w
        = (.error r', w) := by
    rw [run_tryCatch, hrun]
    dsimp only
    split
    · exact ⟨_, by decide, rfl⟩
    · exact ⟨r, hr, rfl⟩
  obtain ⟨r', hr', hcaught⟩ := hcaught
  refine ⟨.error (.raised r'), fun s hs => ⟨s.events, ?_⟩, fun a ha => (by cases ha), fun e he => ?_⟩
  · subst hs
    unfold sampling
    rw [run_running, hcaught]
  · cases he
    exact hE _ (beq_eq_false_iff_ne.2 hr')

section Plans

variable {limit : Int} {items : List Value} (hlimit : ctx.sampleSize = some limit)
include hlimit

theorem feasible_first : ctx.Feasible w (ctx.Strays showable) v items (.first limit) := by
  intro e he
  unfold Sampling.firstCount at he
  split at he
  · cases he
    rename_i hout
    simp only [Bool.or_eq_true, decide_eq_true_eq] at hout
    exact .inl ⟨fun hproper => by have := hproper limit hlimit; omega, rfl⟩
  · cases he

/-- A proper limit is below the size, so the positions are those of elements. -/
theorem feasible_pickOut (hv : ctx.program.Collects w v items) (hlarge : limit < items.length)
    (hsequence : ctx.program.isInstance v (.container "Sequence") = true) :
    ctx.Feasible w (ctx.Strays showable) v items (.pickOut (Sampling.positions items.length limit.toNat)) := by
  intro i hi
  rcases Nat.lt_or_ge i items.length with hlt | hge
  · have hx := List.getElem?_eq_getElem hlt
    exact inspects_sampling ⟨_, hv.item hsequence i _ hx, hx⟩
  · obtain ⟨message, hrun⟩ := hv.stray hsequence i hge
    refine inspects_sampling_error hrun (show ClassId.builtin "IndexError" ≠ _ by decide)
      fun e he => .inl ⟨fun hproper => ?_, he⟩
    obtain ⟨hpos, -⟩ := hproper limit hlimit
    obtain ⟨j, hj, rfl⟩ := List.mem_map.1 hi
    rw [List.mem_range] at hj
    have hprecise := hv.length_le
    exact absurd (Sampling.position_lt hj (by omega) (by omega)) (Nat.not_lt.2 hge)

theorem feasible_goThrough (size : Nat) :
    ctx.Feasible w (ctx.Strays showable) v items (.goThrough (Sampling.positions size limit.toNat)) := by
  refine fun hnil => .inl ⟨fun hproper => ?_, rfl⟩
  obtain ⟨hpos, -⟩ := hproper limit hlimit
  have hlength := congrArg List.length hnil
  rw [Sampling.positions, List.length_map, List.length_range, List.length_nil] at hlength
  omega

end Plans

/-- However many elements a sample of some limit takes, it can be taken. -/
theorem plannable_strays {items : List Value} (hv : ctx.program.Collects w v items) :
    ctx.Plannable w (ctx.Strays showable) v items := by
  intro size hsize
  cases hlimit : ctx.sampleSize with
  | none =>
    refine ⟨fun e he => (by cases he), fun plan hplan => ?_⟩
    cases hplan
    trivial
  | some limit =>
    rw [hlimit] at hsize
    unfold Sampling.plan
    dsimp only
    split
    · refine ⟨fun e he => (by cases he), fun plan hplan => ?_⟩
      cases hplan
      exact feasible_first hlimit
    rename_i hlarge
    simp only [Bool.or_eq_true, beq_iff_eq, decide_eq_true_eq, not_or, not_le] at hlarge
    obtain ⟨hsized, hlarge⟩ := hlarge
    obtain rfl : size = items.length := hsize rfl hsized
    split
    · rename_i hzero
      refine ⟨fun e he => ?_, fun plan hplan => (by cases hplan)⟩
      cases he
      exact .inl ⟨fun hproper => absurd (hproper limit hlimit).1 (by rw [beq_iff_eq.1 hzero]; decide), rfl⟩
    refine ⟨fun e he => (by cases he), fun plan hplan => ?_⟩
    cases hplan
    split
    · rename_i hindex
      exact feasible_pickOut hlimit hv hlarge (isInstance_of_access (beq_iff_eq.1 hindex))
    · exact feasible_goThrough hlimit items.length

/-! ## Finite values -/

theorem ends_judgeTypeVar (name : String) : Concludes w E (ctx.judgeTypeVar name v path) := by
  have haccept : ∀ b : Bindings, Concludes w E (do
      modify fun s => { s with bindings := some b }
      return .yes) :=
    fun b s hs => .inl ⟨.yes, { s with bindings := some b }, rfl, hs, trivial⟩
  refine ends_get.bind fun s _ => ?_
  split
  · exact ends_pure trivial
  split
  · exact haccept _
  · exact (ends_pure trivial).ite ((haccept _).ite (ends_pure trivial))

theorem isAmong_ok {doubles : List Target} (h : ∀ d ∈ doubles, ∃ c, d = .ofClass c) :
    ∃ among, ctx.isAmong v doubles = .ok among := by
  induction doubles with
  | nil => exact ⟨false, rfl⟩
  | cons d ds ih =>
    obtain ⟨c, rfl⟩ := h d List.mem_cons_self
    rw [isAmong]
    split
    · exact ⟨true, rfl⟩
    · exact ih fun d hd => h d (List.mem_cons_of_mem _ hd)

theorem canShow_keysView {kind : MappingKind} {entries : List (Value × Value)} (h : ctx.CanShow w (.mapping kind entries)) :
    ctx.CanShow w (Program.keysView kind entries) := by
  refine ⟨fun _ _ hview => (by cases hview), fun _ => ?_⟩
  rw [World.view, Program.keysView, Value.substitute, Value.legible_sequence]
  intro x hx
  obtain ⟨key, hkey, rfl⟩ := Value.mem_substituteAll hx
  exact h.keys kind entries rfl key hkey

/-- A value that is nested at most so many levels deep, and can be shown if anything can. -/
structure Judgeable (ctx : Context) (w : World) (showable : Prop) (n : Nat) (v : Value) : Prop where
  finite : v.Finite w n
  shown : showable → ctx.Showable w v

/-- Looking into a finite value fails at most in showing it, and its parts are nested less deep. -/
theorem grounds_judgeable (hn : n < ctx.program.depthLimit) :
    Grounds ctx w w.finiteCells (ctx.Strays showable) (ctx.Judgeable w showable n)
      fun x => ∃ m < n, ctx.Judgeable w showable m x where
  world := w.builtIn_finiteCells
  sized := ⟨True, n, fun _ => hn, fun h => absurd trivial h, fun _ hv => ⟨hv.finite.builtIn, fun _ => hv.finite⟩⟩
  part hv hx := by
    obtain ⟨m, rfl, hm⟩ := hv.finite.part hx
    exact ⟨m, Nat.lt_succ_self m, hm, fun h => (hv.shown h).part hx⟩
  keysView hv := ⟨hv.finite.keysView, fun h => (hv.shown h).keysView (canShow_keysView (hv.shown h).here)⟩
  shown hv hlogging hillegible := .inr ⟨fun h => hillegible ((hv.shown h).here.whole hlogging), rfl⟩
  key hv key hkey hillegible := .inr ⟨fun h => hillegible ((hv.shown h).here.keys _ _ rfl key hkey), rfl⟩

theorem descent_concludes (hp : ctx.program.Separate) (hn : n < ctx.program.depthLimit) (slot : String) :
    Descent ctx (ctx.variant ctx.sampleSize ctx.receiver) w (ctx.Strays showable) (ctx.Judgeable w showable n) slot slot
      (alone fun _ m => Concludes w (ctx.Strays showable) m) where
  toRules := rules_concludes w _ slot
  union {F judge judge' ts v steps} h := ends_firstOf _ [] h
  base kind v steps hv hcell :=
    (rules_concludes w _ slot).judgeBase hp w.builtIn_finiteCells hv.finite.builtIn ((grounds_judgeable hn).shown hv)
      steps fun h b => .base (by rwa [World.resolve_of_isCell hcell])
  typeVar name v steps _ := ends_judgeTypeVar name
  sampled {F v items look look'} hv hcollection hitems hlasting hlook :=
    (rules_concludes w _ slot).sampled (r := ctx.receiver) hlasting (hp.yields hv.finite.builtIn hcollection hitems)
      hlook (Value.isCell_of_isCollection hcollection) (plannable_strays (hp.collects hv.finite hcollection hitems))

/-- A finite value is judged to the end, if there is fuel for the budget of the judgement. -/
theorem ends_judge (hp : ctx.program.Separate) (hdoubles : ∀ d ∈ ctx.doubles, ∃ c, d = .ofClass c)
    (hguarded : ctx.registry.Guarded) {top : Nat} (hexpansions : ctx.registry.expansionHeight ≤ top) {t : TypeExpr}
    {met : List String} (fuel : Nat) (hv : ctx.Judgeable w showable n v) (hn : n < ctx.program.depthLimit)
    (hnames : ∀ e, ¬ t.Leads ctx.registry e) (htop : t.height ≤ top) (hmet : ctx.registry.Met met t)
    (hfuel : Registry.budget ctx.registry.aliases.length top n (ctx.registry.aliases.length - met.length) t.height
      ≤ fuel) : Concludes w (ctx.Strays showable) (ctx.judge fuel v t path) := by
  suffices h : Descent.Reaches ctx w path.slot path.slot (alone fun _ m => Concludes w (ctx.Strays showable) m)
      (ctx.judge fuel) (ctx.judge fuel) v t from h path.steps
  induction fuel generalizing v n t met with
  | zero => exact absurd hfuel (Nat.not_succ_le_zero _)
  | succ fuel ih =>
    have hresolved : ctx.Judgeable w showable n (w.resolve v) := ⟨hv.finite.resolve, fun h => (hv.shown h).resolve⟩
    have hparts : ∀ u, t.Part ctx.registry u → (∀ e, ¬ u.Leads ctx.registry e) ∧ u.height ≤ top := by
      refine fun u hu => ⟨fun e hleads => ?_, Registry.height_le_of_part hu hexpansions htop⟩
      obtain ⟨x, hwithin, hdangles⟩ := hleads
      exact hnames e ⟨x, hwithin.head hu, hdangles⟩
    intro steps
    refine (descent_concludes hp hn path.slot).judgeUnlessDouble steps hp (grounds_judgeable hn) hresolved
      hv.finite.builtIn ?_ (fun e h => absurd ⟨t, .refl, h⟩ (hnames e)) (fun u hu => ?_) fun u hu x hx => ?_
    · intro e he
      obtain ⟨among, hamong⟩ := isAmong_ok (v := w.resolve v) hdoubles
      cases hamong.symm.trans he
    · obtain ⟨met', hmet', hlt⟩ := hmet.budget_lt hguarded hexpansions hu n
      exact ih hresolved hn (hparts u hu.part).1 (hparts u hu.part).2 hmet' (by omega)
    · obtain ⟨m, hm, hx⟩ := hx
      obtain ⟨hnames', htop'⟩ := hparts u hu
      refine ih hx (hm.trans hn) hnames' htop' (.nil _ u) (Nat.le_of_lt_succ ?_)
      exact Nat.lt_of_lt_of_le (Registry.budget_part hm htop') hfuel

section Satisfies

variable {t : TypeExpr} (hp : ctx.program.Separate) (hdoubles : ∀ d ∈ ctx.doubles, ∃ c, d = .ofClass c)
  (hguarded : ctx.registry.Guarded) (hnames : ∀ e, ¬ t.Leads ctx.registry e)
include hp hdoubles hguarded hnames

theorem ends_satisfies (hv : v.Finite w n) (hlimit : ctx.registry.recursionBound t n ≤ ctx.program.depthLimit)
    (slot : String) : Concludes w (ctx.Strays (ctx.Showable w v)) (ctx.satisfies v t slot) :=
  ends_judge hp hdoubles hguarded (Nat.le_max_right _ _) _ ⟨hv, fun h => h⟩
    (Nat.lt_of_lt_of_le (ctx.registry.depth_lt_recursionBound t n) hlimit) hnames (Nat.le_max_left _ _) (.nil _ t)
    ((ctx.registry.budget_le_recursionBound t n).trans hlimit)

/-- Judging a finite value against a type of a guarded registry, whose names all mean something, comes to an end within
the bound that the registry, the type and the depth of the value give, whatever is bound.  With a proper sample size it
ends in a verdict, unless an integer has too many digits to be shown, which it then complains of.  With any other sample
size it does not go too deep either. -/
theorem satisfies_returns {s : Scene} (hv : v.Finite s.world n)
    (hlimit : ctx.registry.recursionBound t n ≤ ctx.program.depthLimit) (slot : String) :
    (Sampling.IsProper ctx.sampleSize →
      (∃ verdict s', (ctx.satisfies v t slot).run.run s = (.ok verdict, s')) ∨
        ¬ ctx.Showable s.world v ∧
          ∃ s', (ctx.satisfies v t slot).run.run s = (.error (.raised .tooManyDigits), s'))
      ∧ ∀ e s', (ctx.satisfies v t slot).run.run s = (.error e, s') → e.isRecursion = false := by
  obtain ⟨verdict, s', hrun, -, -⟩ | ⟨e, s', hrun, hstrays⟩ :=
    ends_satisfies hp hdoubles hguarded hnames hv hlimit slot s rfl
  · refine ⟨fun _ => .inl ⟨verdict, s', hrun⟩, fun e s' herror => ?_⟩
    rw [hrun] at herror
    cases herror
  · refine ⟨fun hproper => ?_, fun e s' herror => ?_⟩
    · obtain ⟨himproper, -⟩ | ⟨hshowable, rfl⟩ := hstrays
      · exact absurd hproper himproper
      · exact .inr ⟨hshowable, s', hrun⟩
    · rw [hrun] at herror
      cases herror
      exact hstrays.isRecursion

end Satisfies

/-- The registry before any registration, with one more alias, which refers to itself. -/
def jsonRegistry : Registry :=
  Registry.initial.registerAlias "json" "nil | int | str | Array[json] | Hash[str, json]"

/-- A value that the alias takes in, down to the fourth level. -/
def jsonValue : Value :=
  .mapping .dict [(.str "a", .sequence .list [.int 1, .null, .mapping .dict [(.str "b", .sequence .list [])]])]

theorem jsonRegistry_fit : jsonRegistry.isLayered (fun _ => 0) = true ∧ jsonRegistry.isComplete = true
    ∧ jsonRegistry.knows (.classRef "json" []) = true
    ∧ jsonRegistry.recursionBound (.classRef "json" []) 4 ≤ 1000 := by
  decide +kernel

theorem jsonValue_finite (w : World) : jsonValue.Finite w 4 := by
  have hkey : ∀ s, (Value.str s).IsKey w := fun s => Value.isKey_ofKey (.str s)
  have hnone : (Value.sequence .list []).Finite w 1 := .sequence (by decide) (by decide) (by simp) (by simp)
  have hinner : (Value.mapping .dict [(.str "b", .sequence .list [])]).Finite w 2 :=
    .mapping (by decide) (by decide) (by simpa using .atom rfl rfl) (by simpa using hnone) (by simpa using hkey "b")
  have houter : (Value.sequence .list [.int 1, .null, .mapping .dict [(.str "b", .sequence .list [])]]).Finite w 3 :=
    .sequence (by decide) (by decide) (by simpa using ⟨.atom rfl rfl, .atom rfl rfl, hinner⟩) (by simp)
  exact .mapping (by decide) (by decide) (by simpa using .atom rfl rfl) (by simpa using houter)
    (by simpa using hkey "a")

/-- What is no mapping is not shown, if there is nobody to read the records. -/
theorem canShow_of_quiet (hlogging : ctx.logging = false) (hv : ∀ kind entries, v ≠ .mapping kind entries) :
    ctx.CanShow w v :=
  ⟨fun kind entries h => absurd h (hv kind entries), fun h => by rw [hlogging] at h; cases h⟩

theorem jsonValue_showable (hlogging : ctx.logging = false) (w : World) : ctx.Showable w jsonValue := by
  have hatom {v : Value} (h : v.isAtom = true) (hrow : v.isRow = false) : ctx.Showable w v :=
    Value.throughout_atom h hrow (canShow_of_quiet hlogging fun kind entries hv => by rw [hv] at h; cases h)
  have hlist {items : List Value} (h : ∀ x ∈ items, ctx.Showable w x) : ctx.Showable w (.sequence .list items) :=
    Value.throughout_sequence (canShow_of_quiet hlogging fun _ _ hv => by cases hv) h
  have hentry (key : String) {x : Value} (h : ctx.Showable w x) : ctx.Showable w (.mapping .dict [(.str key, x)]) := by
    refine Value.throughout_mapping (by decide) ⟨?_, fun hyes => by rw [hlogging] at hyes; cases hyes⟩ ?_
    · rintro _ _ ⟨⟩ _ hkey
      cases List.mem_singleton.1 hkey
      exact fun _ hn => by cases hn
    · simpa using ⟨hatom rfl rfl, h⟩
  exact hentry "a" (hlist (by simpa using ⟨hatom rfl rfl, hatom rfl rfl, hentry "b" (hlist (by simp))⟩))

theorem isProper_hundred : Sampling.IsProper (some 100) := by
  rintro _ ⟨⟩
  decide

theorem satisfies_returns_json :
    jsonRegistry.Guarded ∧ (∀ e, ¬ (TypeExpr.classRef "json" []).Leads jsonRegistry e) ∧ jsonValue.Finite {} 4 ∧
      ∃ verdict s', (({ registry := jsonRegistry } : Context).satisfies jsonValue (.classRef "json" []) "result").run.run
        {} = (.ok verdict, s') := by
  obtain ⟨hlayered, hcomplete, hknown, hbound⟩ := jsonRegistry_fit
  have hguarded := Registry.guarded_of_isLayered hlayered
  have hnames := Registry.not_leads_of_isComplete hcomplete hknown
  have hfinite : jsonValue.Finite {} 4 := jsonValue_finite {}
  have hp : ({ registry := jsonRegistry } : Context).program.Separate := Program.separate_empty
  obtain ⟨hends, -⟩ := satisfies_returns (s := {}) hp (fun _ hd => by cases hd) hguarded hnames hfinite hbound "result"
  rcases hends isProper_hundred with hverdict | ⟨hillegible, -⟩
  · exact ⟨hguarded, hnames, hfinite, hverdict⟩
  · exact absurd (jsonValue_showable rfl _) hillegible

/-- A mapping with one key, which has too many digits. -/
def unwritable : Value := .mapping .dict [(.int (10 ^ Text.digitLimit), .int 1)]

def integersByInteger : TypeExpr := .classRef "Hash" [.classRef "int" [], .classRef "int" []]

theorem integersByInteger_fit : Registry.initial.isLayered (fun _ => 0) = true ∧ Registry.initial.isComplete = true
    ∧ Registry.initial.knows integersByInteger = true ∧ Registry.initial.recursionBound integersByInteger 1 ≤ 1000
    ∧ ((({} : Context).satisfies unwritable integersByInteger "value").run.run {}).1.toOption.isNone = true := by
  decide +kernel

/-- A finite value may be judged to no verdict, although the judgement does not go too deep. -/
theorem satisfies_unwritable :
    unwritable.Finite {} 1 ∧ Registry.initial.Guarded ∧ (∀ e, ¬ integersByInteger.Leads .initial e) ∧
      Registry.initial.recursionBound integersByInteger 1 ≤ 1000 ∧
      ∃ s, (({} : Context).satisfies unwritable integersByInteger "value").run.run {} =
        (.error (.raised .tooManyDigits), s) := by
  obtain ⟨hlayered, hcomplete, hknown, hbound, hnone⟩ := integersByInteger_fit
  have hguarded := Registry.guarded_of_isLayered hlayered
  have hnames := Registry.not_leads_of_isComplete hcomplete hknown
  have hkey : (Value.int (10 ^ Text.digitLimit)).IsKey {} := Value.isKey_ofKey (.int _)
  have hfinite : unwritable.Finite {} 1 :=
    .mapping (by decide) (by decide) (by simpa using .atom rfl rfl) (by simpa using .atom rfl rfl) (by simpa using hkey)
  refine ⟨hfinite, hguarded, hnames, hbound, ?_⟩
  have hp : ({} : Context).program.Separate := Program.separate_empty
  obtain ⟨verdict, s, hrun, -⟩ | ⟨e, s, hrun, ⟨himproper, -⟩ | ⟨-, rfl⟩⟩ :=
    ends_satisfies hp (fun _ hd => by cases hd) hguarded hnames hfinite hbound "value" {} rfl
  · rw [hrun] at hnone
    cases hnone
  · exact absurd isProper_hundred himproper
  · exact ⟨s, hrun⟩

end Context

end Conformance
