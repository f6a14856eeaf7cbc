import Mathlib
import Conformance.Proofs.Samples
import Conformance.Proofs.Unbound

/-!
# Judging by samples

To judge a built-in value by samples of its collections is to leave some of its elements out, at every level.  So what
is accepted when all elements are looked at is not rejected by a sample (`Outcome.Covers`), although an element left out
may let an earlier alternative of a union accept.  If no collection in the value has more elements than the limit
(`Value.AtMost`), nothing is left out, and the outcomes are the same (`Outcome.SameUpTo`).  The limit has to be one that
elements can be counted up to.

Main statement: `Context.sampling_covers`.
-/

namespace Conformance

open Judging Run

namespace Outcome

/-- With a limit the outcome is the same, unless elements cannot be counted up to it. -/
def SameUpTo (k : Int) (full part : Outcome) : Prop :=
  part = full ∨ Sampling.largestLimit < k ∧ part = .error .limitOutOfRange

variable {k : Int}

theorem firstOf_sameUpTo (rejected : List Mismatch → Mismatch) {rs rs' : List Outcome}
    (h : List.Forall₂ (SameUpTo k) rs rs') (failures : List Mismatch) :
    SameUpTo k (firstOf rejected failures rs) (firstOf rejected failures rs') := by
  induction h generalizing failures with
  | nil => exact .inl rfl
  | @cons r r' rs rs' hr _ ih =>
    rcases hr with rfl | ⟨hlarge, rfl⟩
    · cases r' with
      | error e => exact .inl rfl
      | ok verdict =>
        cases verdict with
        | no m => exact ih (failures ++ [m])
        | yes | maybe => exact .inl rfl
    · exact .inr ⟨hlarge, rfl⟩

theorem compatible_sameUpTo (k : Int) (slot : String) : Compatible slot slot (SameUpTo k) where
  accept := .inl rfl
  reject _ _ _ _ := .inl rfl
  fault _ := .inl rfl
  andThen {r r' q q'} hr hq := by
    rcases hr with rfl | ⟨hlarge, rfl⟩
    · cases r' with
      | error e => exact .inl rfl
      | ok verdict =>
        by_cases hok : verdict.isOk = true
        · simp only [andThen, hok, if_true]
          exact hq
        · simp only [andThen, if_neg hok]
          exact .inl rfl
    · exact .inr ⟨hlarge, rfl⟩
  union ts v steps {rs rs'} h := firstOf_sameUpTo _ h []

end Outcome

namespace Sampling

/-- Whatever is picked are elements with their positions. -/
theorem mem_indexed_of_pick {α : Type} {items : List α} {plan : Plan} {pairs : List (Nat × α)}
    (h : plan.pick items = .ok pairs) {e : Nat × α} (he : e ∈ pairs) : e ∈ indexed items := by
  cases plan with
  | all =>
    cases h
    exact he
  | first limit =>
    rw [Plan.pick] at h
    cases hcount : firstCount limit with
    | error e =>
      rw [hcount] at h
      cases h
    | ok count =>
      rw [hcount] at h
      cases h
      have he := mem_indexed.1 he
      rw [List.getElem?_take] at he
      split at he
      · exact mem_indexed.2 he
      · cases he
  | pickOut wanted =>
    cases h
    exact mem_indexed.2 (mem_byPosition.1 he).2
  | goThrough wanted =>
    rw [Plan.pick] at h
    split at h
    · cases h
    · cases h
      exact (List.mem_filter.1 he).1

theorem mem_indexed_of_sample {α : Type} {items : List α} {access : Access} {size : Nat} {limit : Option Int}
    {pairs : List (Nat × α)} (h : sample access size limit items = .ok pairs) {e : Nat × α} (he : e ∈ pairs) :
    e ∈ indexed items := by
  unfold sample at h
  cases hplan : plan access size limit with
  | error e =>
    rw [hplan] at h
    cases h
  | ok plan =>
    rw [hplan] at h
    exact mem_indexed_of_pick h he

end Sampling

/-! ## Demands left out -/

namespace Judging

variable {w : World} {I I' : Option Bindings → Prop} {ι : Type} {f f' : ι → Judging Verdict} {xs : List ι}

theorem keeps_allOf (h : ∀ x ∈ xs, Keeps w I (f x)) : Keeps w I (allOf (xs.map f)) := by
  induction xs with
  | nil => exact keeps_pure _
  | cons x xs ih =>
    exact (h x List.mem_cons_self).andThen (ih fun y hy => h y (List.mem_cons_of_mem x hy))

/-- If all demands in turn are met, each of them is met in some state that it comes to. -/
theorem accepted_of_allOf (h : ∀ x ∈ xs, Keeps w I (f x)) {s : Scene} (hs : s.world = w) (hb : I s.bindings)
    (haccepted : Outcome.Accepted ((allOf (xs.map f)).run.run s).1) {x : ι} (hx : x ∈ xs) :
    ∃ at_x : Scene, at_x.world = w ∧ I at_x.bindings ∧ Outcome.Accepted ((f x).run.run at_x).1 := by
  induction xs generalizing s with
  | nil => cases hx
  | cons y ys ih =>
    obtain ⟨hworld, hbindings⟩ := h y List.mem_cons_self s hs hb
    rw [List.map_cons, allOf, outcome_andThen] at haccepted
    cases hfirst : ((f y).run.run s).1 with
    | error e =>
      rw [hfirst] at haccepted
      exact absurd haccepted (Outcome.not_accepted_error e)
    | ok verdict =>
      rw [hfirst] at haccepted
      by_cases hok : verdict.isOk = true
      · simp only [Outcome.andThen, hok, if_true] at haccepted
        rcases List.mem_cons.1 hx with rfl | hx
        · exact ⟨s, hs, hb, verdict, hfirst, hok⟩
        · exact ih (fun z hz => h z (List.mem_cons_of_mem y hz)) hworld hbindings haccepted hx
      · simp only [Outcome.andThen, if_neg hok] at haccepted
        obtain ⟨_, hsame, hok'⟩ := haccepted
        cases hsame
        exact absurd hok' hok

/-- If no demand rejects, neither do all in turn. -/
theorem not_rejected_allOf (h : ∀ x ∈ xs, Keeps w I (f x))
    (hnone : ∀ x ∈ xs, ∀ s : Scene, s.world = w → I s.bindings → ¬ Outcome.Rejected ((f x).run.run s).1) {s : Scene}
    (hs : s.world = w) (hb : I s.bindings) : ¬ Outcome.Rejected ((allOf (xs.map f)).run.run s).1 := by
  induction xs generalizing s with
  | nil => exact Outcome.not_rejected_of_isOk rfl
  | cons y ys ih =>
    obtain ⟨hworld, hbindings⟩ := h y List.mem_cons_self s hs hb
    have hfirst := hnone y List.mem_cons_self s hs hb
    have hrest := ih (fun z hz => h z (List.mem_cons_of_mem y hz)) (fun z hz => hnone z (List.mem_cons_of_mem y hz))
      hworld hbindings
    rw [List.map_cons, allOf, outcome_andThen]
    cases hresult : ((f y).run.run s).1 with
    | error e => exact Outcome.not_rejected_error e
    | ok verdict =>
      rw [hresult] at hfirst
      rw [Outcome.andThen, Context.isOk_of_not_rejected hfirst, if_pos rfl]
      exact hrest

/-- Fewer demands do not reject what more of them accept. -/
theorem covers_allOf {ys : List ι} (hsub : ∀ y ∈ ys, y ∈ xs) (h : ∀ x ∈ xs, Paired w I I' Outcome.Covers (f x) (f' x)) :
    Paired w I I' Outcome.Covers (allOf (xs.map f)) (allOf (ys.map f')) := by
  have hleft : ∀ x ∈ xs, Keeps w I (f x) := fun x hx => (h x hx).left
  have hright : ∀ y ∈ ys, Keeps w I' (f' y) := fun y hy => (h y (hsub y hy)).right
  refine ⟨keeps_allOf hleft, keeps_allOf hright, fun s s' hs hb hs' hb' haccepted => ?_⟩
  refine not_rejected_allOf hright (fun y hy s₂ hs₂ hb₂ => ?_) hs' hb'
  obtain ⟨s₁, hs₁, hb₁, hmet⟩ := accepted_of_allOf hleft hs hb haccepted (hsub y hy)
  exact (h y (hsub y hy)).outcomes s₁ s₂ hs₁ hb₁ hs₂ hb₂ hmet

end Judging

/-! ## Collections in a value -/

namespace Value

variable {n : Nat}

/-- The value is no collection with more elements than this. -/
def FewerThan (k : Int) (v : Value) : Prop :=
  ∀ items, v.isCollection = true → v.items? = some items → (items.length : Int) ≤ k

/-- No collection in the value, at any depth, has more elements than this. -/
abbrev AtMost (w : World) (k : Int) (v : Value) : Prop := v.Throughout w (FewerThan k)

variable {w : World} {k k' : Int} {v : Value}

theorem FewerThan.mono (h : v.FewerThan k) (hle : k ≤ k') : v.FewerThan k' :=
  fun items hcollection hitems => (h items hcollection hitems).trans hle

theorem AtMost.min (h : v.AtMost w k) (h' : v.AtMost w k') : v.AtMost w (min k k') :=
  fun u hu items hcollection hitems => le_min (h u hu items hcollection hitems) (h' u hu items hcollection hitems)

theorem fewerThan_keysView {kind : MappingKind} {entries : List (Value × Value)} (hkind : kind ≠ .toHash)
    (h : (Value.mapping kind entries).FewerThan k) : (Program.keysView kind entries).FewerThan k := by
  intro items _ hitems
  cases hitems
  refine h _ rfl ?_
  cases kind with
  | toHash => exact absurd rfl hkind
  | _ => rfl

/-- No collection in a finite value is larger than what fits into a memory. -/
theorem Finite.atMost (h : v.Finite w n) : v.AtMost w Sampling.preciseLimit := by
  refine h.throughout.mono fun u hfinite items hcollection hitems => ?_
  obtain ⟨_, hfinite⟩ := hfinite
  obtain ⟨_, -, -, hsize⟩ := hfinite.elements hcollection hitems
  exact_mod_cast hsize

end Value

/-- Built-in values without large collections. -/
theorem World.BuiltIn.small_domain {w : World} {cells : Nat → Prop} (hw : w.BuiltIn cells) (k : Int) :
    Domain w cells fun v => v.BuiltIn cells ∧ v.AtMost w k where
  builtIn hv := hv.1
  resolve hv := ⟨hw.domain.resolve hv.1, hv.2.resolve⟩
  part hv hx := ⟨hv.1.part hx, hv.2.part hx⟩
  keysView hv := by
    refine ⟨hw.domain.keysView hv.1, hv.2.keysView (Value.fewerThan_keysView ?_ hv.2.here)⟩
    cases hv.1 with
    | atom h => cases h
    | mapping hkind => exact hkind

namespace Context

variable {ctx : Context} {w : World} {cells : Nat → Prop} {k : Int} {v : Value} {items : List Value}
  {look look' : Nat → Value → Judging Verdict}

/-! ## Samples of built-in collections -/

/-- A collection that fits into a memory is sampled as its elements are. -/
theorem sampled_of_atMost (ctx : Context) (hp : ctx.program.Separate) (hv : v.BuiltIn cells)
    (hfits : v.AtMost w Sampling.preciseLimit) (hcollection : v.isCollection = true) (hitems : v.items? = some items)
    (look : Nat → Value → Judging Verdict) :
    ctx.sampled v look =
      demand (Sampling.sample (ctx.access v) items.length ctx.sampleSize items) >>= lookAt look := by
  have hsize : items.length ≤ Sampling.preciseLimit := by exact_mod_cast hfits.here items hcollection hitems
  exact sampled_eq (fun _ => hp.collects_of_length hv hcollection hitems hsize)
    (Value.isCell_of_isCollection hcollection) look

theorem paired_indexed {I I' : Option Bindings → Prop} {agree : Outcome → Outcome → Prop}
    (hlook : ∀ i, ∀ x ∈ items, Paired w I I' agree (look i x) (look' i x)) :
    ∀ e ∈ Sampling.indexed items, Paired w I I' agree (look e.1 e.2) (look' e.1 e.2) :=
  fun e he => hlook e.1 e.2 (List.mem_of_getElem? (Sampling.mem_indexed.1 he))

section Samples

variable (hp : ctx.program.Separate) (hfull : ctx.sampleSize = none)
include hp hfull

/-- A sample does not reject what all elements together are accepted with. -/
theorem covers_sampled {I I' : Option Bindings → Prop} {r : Option Value} (hv : v.BuiltIn cells)
    (hfits : v.AtMost w Sampling.preciseLimit) (hcollection : v.isCollection = true) (hitems : v.items? = some items)
    (hlook : ∀ i, ∀ x ∈ items, Paired w I I' Outcome.Covers (look i x) (look' i x)) :
    Paired w I I' Outcome.Covers (ctx.sampled v look) ((ctx.variant (some k) r).sampled v look') := by
  rw [ctx.sampled_of_atMost hp hv hfits hcollection hitems look, hfull,
    (ctx.variant (some k) r).sampled_of_atMost hp hv hfits hcollection hitems look']
  have hall := paired_indexed hlook
  change Paired w I I' _ (lookAt look (Sampling.indexed items)) _
  cases hsample : Sampling.sample ((ctx.variant (some k) r).access v) items.length (some k) items with
  | error e =>
    refine ⟨keeps_allOf fun x hx => (hall x hx).left, fun s hs hb => ⟨hs, hb⟩, fun _ _ _ _ _ _ _ => ?_⟩
    exact Outcome.not_rejected_error e
  | ok pairs => exact covers_allOf (fun e he => Sampling.mem_indexed_of_sample hsample he) hall

/-- Of a collection that is not too large, a sample takes in everything. -/
theorem sameUpTo_sampled {I I' : Option Bindings → Prop} {r : Option Value} (hpos : 0 < k) (hv : v.BuiltIn cells)
    (hfits : v.AtMost w Sampling.preciseLimit) (hsmall : v.AtMost w k) (hcollection : v.isCollection = true)
    (hitems : v.items? = some items)
    (hlook : ∀ i, ∀ x ∈ items, Paired w I I' (Outcome.SameUpTo k) (look i x) (look' i x)) :
    Paired w I I' (Outcome.SameUpTo k) (ctx.sampled v look) ((ctx.variant (some k) r).sampled v look') := by
  rw [ctx.sampled_of_atMost hp hv hfits hcollection hitems look, hfull,
    (ctx.variant (some k) r).sampled_of_atMost hp hv hfits hcollection hitems look',
    Sampling.sample_of_le (hsmall.here items hcollection hitems)]
  have hall := paired_indexed hlook
  change Paired w I I' _ (lookAt look (Sampling.indexed items)) _
  unfold Sampling.firstCount
  by_cases hlarge : Sampling.largestLimit < k
  · rw [decide_eq_true hlarge, Bool.or_true, if_pos rfl]
    refine ⟨keeps_allOf fun x hx => (hall x hx).left, fun s hs hb => ⟨hs, hb⟩, fun _ _ _ _ _ _ => ?_⟩
    exact .inr ⟨hlarge, rfl⟩
  · rw [decide_eq_false hlarge, decide_eq_false (by omega), Bool.or_false, if_neg Bool.false_ne_true]
    exact (Outcome.compatible_sameUpTo k "").all hall

end Samples

theorem paired_judgeTypeVar {ctx' : Context} {agree : Outcome → Outcome → Prop}
    (hagree : ∀ name, agree (.ok (.maybe name)) (.ok (.maybe name))) (name : String) (v : Value) (path path' : Path) :
    Paired w (· = none) (· = none) agree (ctx.judgeTypeVar name v path) (ctx'.judgeTypeVar name v path') := by
  refine ⟨keeps_judgeTypeVar_open name _, keeps_judgeTypeVar_open name _, fun s s' _ hb _ hb' => ?_⟩
  rw [run_judgeTypeVar_open hb, run_judgeTypeVar_open hb']
  exact hagree name

theorem comparison_covers_sampled (ctx : Context) (hp : ctx.program.Separate) (hfull : ctx.sampleSize = none)
    (hw : w.BuiltIn cells) (k : Int) (slot : String) :
    Comparison ctx (ctx.variant (some k) ctx.receiver) w
      (fun v => v.BuiltIn cells ∧ v.AtMost w Sampling.preciseLimit) slot slot (· = none) (· = none) Outcome.Covers where
  toCompatible := Outcome.compatible_covers slot slot
  base kind _ steps hv := (Outcome.compatible_covers slot slot).judgeBase hp hw hv.1 steps kind
  typeVar name v _ := paired_judgeTypeVar (fun _ _ => Outcome.not_rejected_of_isOk rfl) name v _ _
  sampled hv := covers_sampled hp hfull hv.1 hv.2

theorem comparison_sameUpTo (ctx : Context) (hp : ctx.program.Separate) (hfull : ctx.sampleSize = none)
    (hw : w.BuiltIn cells) (hpos : 0 < k) (slot : String) :
    Comparison ctx (ctx.variant (some k) ctx.receiver) w
      (fun v => v.BuiltIn cells ∧ v.AtMost w (min Sampling.preciseLimit k)) slot slot (· = none) (· = none)
      (Outcome.SameUpTo k) where
  toCompatible := Outcome.compatible_sameUpTo k slot
  base kind _ steps hv := (Outcome.compatible_sameUpTo k slot).judgeBase hp hw hv.1 steps kind
  typeVar name v _ := paired_judgeTypeVar (fun _ => .inl rfl) name v _ _
  sampled hv := sameUpTo_sampled hp hfull hpos hv.1 (hv.2.mono fun _ h => h.mono (min_le_left _ _))
    (hv.2.mono fun _ h => h.mono (min_le_right _ _))

/-! ## What judging by samples comes to -/

/-- What judging a value without bindings comes to, with some sample size. -/
abbrev outcomeWith (ctx : Context) (limit : Option Int) (v : Value) (t : TypeExpr) (slot : String) (w : World) :
    Outcome :=
  (ctx.variant limit ctx.receiver).outcome v t slot w none

theorem isOfClass_of_isAmong {targets : List Target} (h : ctx.isAmong v targets = .ok false) :
    ∀ d ∈ targets, ∃ c, d = .ofClass c := by
  induction targets with
  | nil => simp
  | cons target targets ih =>
    cases target with
    | ofModule home => cases h
    | ofClass c =>
      rw [isAmong] at h
      split at h
      · cases h
      · exact List.forall_mem_cons.2 ⟨⟨c, rfl⟩, ih h⟩

section BuiltIn

variable (hp : ctx.program.Separate) (hw : w.BuiltIn cells) (hv : v.BuiltIn cells)
  (hfits : v.AtMost w Sampling.preciseLimit)
include hp hw hv hfits

theorem outcome_covers_sampled (k : Int) (t : TypeExpr) (slot : String) :
    Outcome.Covers (ctx.outcomeWith none v t slot w) (ctx.outcomeWith (some k) v t slot w) :=
  ((comparison_covers_sampled (ctx.variant none ctx.receiver) hp rfl hw k slot).paired_judge hp
    (hw.small_domain _) hw ctx.program.depthLimit t [] ⟨hv, hfits⟩).outcomes _ _ rfl rfl rfl rfl

theorem outcome_sameUpTo (hpos : 0 < k) (hsmall : v.AtMost w k) (t : TypeExpr) (slot : String) :
    Outcome.SameUpTo k (ctx.outcomeWith none v t slot w) (ctx.outcomeWith (some k) v t slot w) :=
  ((comparison_sameUpTo (ctx.variant none ctx.receiver) hp rfl hw hpos slot).paired_judge hp
    (hw.small_domain _) hw ctx.program.depthLimit t [] ⟨hv, hfits.min hsmall⟩).outcomes _ _ rfl rfl rfl rfl

end BuiltIn

/-- The sample size does not matter for a double, nor where it cannot be told if the value is one. -/
theorem outcome_unless_judged (h : ctx.isAmong (w.resolve v) ctx.doubles ≠ .ok false) (limit : Option Int)
    (t : TypeExpr) (slot : String) : ctx.outcomeWith limit v t slot w = ctx.outcomeWith none v t slot w := by
  unfold outcomeWith outcome satisfies
  change (((ctx.variant limit ctx.receiver).judge ctx.program.depthLimit v t _).run.run _).1 =
    (((ctx.variant none ctx.receiver).judge ctx.program.depthLimit v t _).run.run _).1
  cases ctx.program.depthLimit with
  | zero => rfl
  | succ fuel =>
    simp only [judge, judgeUnlessDouble, Judging.resolve, bind_assoc, pure_bind]
    rw [run_bind, run_bind, run_get]
    dsimp only
    rw [isAmong_variant ctx limit, isAmong_variant ctx none, run_bind, run_bind, run_demand]
    cases hdouble : ctx.isAmong (w.resolve v) ctx.doubles with
    | error e => dsimp only
    | ok double =>
      cases double with
      | true =>
        dsimp only
        rw [if_pos rfl, if_pos rfl]
        simp only [note, shown]
      | false => exact absurd hdouble h

/-- **Samples reject nothing that is accepted as a whole.**  A built-in value that is accepted when all elements of its
collections are looked at is not rejected by samples of them; so it is accepted, if the value, the registry and the type
are such that judging comes to an end, unless a sample gets to an integer with too many digits to be shown.  If no
collection in the value has more elements than a sample, the outcome is the same.  The exception are limits that elements
cannot be counted up to. -/
theorem sampling_covers (hp : ctx.program.Separate) (hw : w.BuiltIn cells) (hv : v.BuiltIn cells)
    (hfits : v.AtMost w Sampling.preciseLimit) (hk : 0 < k) (t : TypeExpr) (slot : String) :
    ((ctx.outcomeWith none v t slot w).Accepted → ¬ (ctx.outcomeWith (some k) v t slot w).Rejected) ∧
    (∀ n, v.Finite w n → ctx.registry.Guarded → (∀ e, ¬ t.Leads ctx.registry e) →
      ctx.registry.recursionBound t n ≤ ctx.program.depthLimit → (ctx.outcomeWith none v t slot w).Accepted →
      (ctx.outcomeWith (some k) v t slot w).Accepted ∨
        Sampling.largestLimit < k ∧ ctx.outcomeWith (some k) v t slot w = .error .limitOutOfRange ∨
        ¬ ctx.Showable w v ∧ ctx.outcomeWith (some k) v t slot w = .error (.raised .tooManyDigits)) ∧
    (v.AtMost w k → ctx.outcomeWith (some k) v t slot w = ctx.outcomeWith none v t slot w ∨
      Sampling.largestLimit < k ∧ ctx.outcomeWith (some k) v t slot w = .error .limitOutOfRange) := by
  have hcovers := outcome_covers_sampled hp hw hv hfits k t slot
  have hsame (hsmall : v.AtMost w k) := outcome_sameUpTo hp hw hv hfits hk hsmall t slot
  refine ⟨hcovers, fun n hfinite hguarded hnames hlimit haccepted => ?_, hsame⟩
  rcases lt_or_ge Sampling.largestLimit k with hlarge | hproper
  · -- such a limit is larger than any collection
    rcases hsame (hfits.mono fun _ h => h.mono (le_trans (by decide) hlarge.le)) with hequal | hfault
    · exact .inl (hequal ▸ haccepted)
    · exact .inr (.inl hfault)
  · by_cases hdouble : ctx.isAmong (w.resolve v) ctx.doubles = .ok false
    · have hpart : (ctx.variant (some k) ctx.receiver).program.Separate := hp
      obtain ⟨verdict, s', hrun, -, -⟩ | ⟨e, s', hrun, ⟨himproper, -⟩ | ⟨hillegible, rfl⟩⟩ :=
        ends_satisfies hpart (isOfClass_of_isAmong hdouble) hguarded hnames hfinite hlimit slot
          { world := w, bindings := none } rfl
      · have hverdict : ctx.outcomeWith (some k) v t slot w = .ok verdict := congrArg Prod.fst hrun
        exact .inl ⟨verdict, hverdict, isOk_of_not_rejected (hverdict ▸ hcovers haccepted)⟩
      · exact absurd (fun _ h => by cases h; exact ⟨hk, hproper⟩) himproper
      · have hshowable : ¬ ctx.Showable w v :=
          fun h => hillegible fun u hu => ⟨(h u hu).keys, (h u hu).whole⟩
        exact .inr (.inr ⟨hshowable, congrArg Prod.fst hrun⟩)
    · exact .inl (outcome_unless_judged hdouble (some k) t slot ▸ haccepted)

/-- With an alias that refers to itself, and all elements looked at. -/
def jsonContext : Context where
  registry := jsonRegistry
  sampleSize := none

theorem jsonContext_accepts :
    (jsonContext.outcomeWith none jsonValue (.classRef "json" []) "result" {}).toOption.map (·.isOk) = some true := by
  decide +kernel

/-- A list of three in the value is sampled by two of its elements. -/
theorem sampling_covers_json :
    (jsonContext.outcomeWith none jsonValue (.classRef "json" []) "result" {}).Accepted ∧
    (jsonContext.outcomeWith (some 2) jsonValue (.classRef "json" []) "result" {}).Accepted ∧
    jsonContext.outcomeWith (some Sampling.preciseLimit) jsonValue (.classRef "json" []) "result" {} =
      jsonContext.outcomeWith none jsonValue (.classRef "json" []) "result" {} := by
  obtain ⟨hlayered, hcomplete, hknown, hbound⟩ := jsonRegistry_fit
  have haccepted := Outcome.accepted_iff.2 jsonContext_accepts
  have hfinite := jsonValue_finite {}
  have hp : jsonContext.program.Separate := Program.separate_empty
  obtain ⟨-, hends, -⟩ := sampling_covers hp (World.builtIn_finiteCells {}) hfinite.builtIn hfinite.atMost
    (show (0 : Int) < 2 by decide) (.classRef "json" []) "result"
  obtain ⟨-, -, hsame⟩ := sampling_covers hp (World.builtIn_finiteCells {}) hfinite.builtIn hfinite.atMost
    (show (0 : Int) < Sampling.preciseLimit by decide) (.classRef "json" []) "result"
  refine ⟨haccepted, ?_, ?_⟩
  · rcases hends 4 hfinite (Registry.guarded_of_isLayered hlayered)
      (Registry.not_leads_of_isComplete hcomplete hknown) hbound haccepted with
      hsampled | ⟨hlarge, -⟩ | ⟨hillegible, -⟩
    · exact hsampled
    · exact absurd hlarge (by decide)
    · exact absurd (jsonValue_showable rfl _) hillegible
  · rcases hsame hfinite.atMost with hequal | ⟨hlarge, -⟩
    · exact hequal
    · exact absurd hlarge (by decide)

end Context

end Conformance
