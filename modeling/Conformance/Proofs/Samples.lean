import Mathlib
import Conformance.Proofs.Simulation
import Conformance.Proofs.Termination

/-!
# Samples

A sample is made of elements with their positions, in order, beginning with the first; it takes in all elements, or as
many as the limit says, spread evenly (`Sampling.IsSample`).  Whether the positions are asked for one by one or come upon
by going through the collection makes no difference, for in a collection of less than `Sampling.preciseSize` elements the
positions increase.  A limit that first elements cannot be counted up to is a fault (`Sampling.sample_spread`).

What judging looks at in a collection is a sample of its elements (`Context.sampled_eq`).
-/

namespace Conformance

namespace Sampling

variable {α : Type} {items : List α} {wanted : List Nat} {size limit i : Nat} {access : Access} {k : Int}

/-! ## Positions -/

/-- One stride further on is at least one position further on. -/
theorem position_strictMono {j : Nat} (hij : i < j) (hj : j < limit) (hsize : limit < size)
    (hprecise : size < preciseSize) : position size limit i < position size limit j := by
  obtain ⟨hbelow, -⟩ := position_bounds (hij.trans hj) hsize.le hprecise
  obtain ⟨-, habove⟩ := position_bounds hj hsize.le hprecise
  have hstride : i * size + size ≤ j * size := by
    rw [← Nat.succ_mul]
    exact Nat.mul_le_mul_right size hij
  rw [Nat.add_mul, Nat.one_mul] at habove
  exact Nat.lt_of_mul_lt_mul_right (a := limit) (by omega)

theorem pairwise_positions (hsize : limit < size) (hprecise : size < preciseSize) :
    (positions size limit).Pairwise (· < ·) := by
  rw [positions, List.pairwise_map]
  refine List.pairwise_lt_range.imp_of_mem fun _ hj hij => ?_
  exact position_strictMono hij (List.mem_range.1 hj) hsize hprecise

theorem lt_of_mem_positions (hsize : limit < size) (hlimit : limit ≤ preciseLimit) (hi : i ∈ positions size limit) :
    i < size := by
  obtain ⟨j, hj, rfl⟩ := List.mem_map.1 hi
  exact position_lt (List.mem_range.1 hj) hsize hlimit

/-! ## Elements with their positions -/

theorem mem_indexed {e : Nat × α} : e ∈ indexed items ↔ items[e.1]? = some e.2 := by
  rw [indexed, List.mem_map]
  constructor
  · rintro ⟨⟨x, i⟩, hx, rfl⟩
    exact List.mk_mem_zipIdx_iff_getElem?.1 hx
  · intro h
    exact ⟨(e.2, e.1), List.mk_mem_zipIdx_iff_getElem?.2 h, rfl⟩

theorem map_fst_indexed (items : List α) : (indexed items).map (·.1) = List.range items.length := by
  rw [indexed, List.map_map]
  exact (List.zipIdx_map_snd 0 items).trans List.range_eq_range'.symm

theorem pairwise_indexed (items : List α) : (indexed items).Pairwise fun e f => e.1 < f.1 := by
  rw [← List.pairwise_map (f := Prod.fst), map_fst_indexed]
  exact List.pairwise_lt_range

theorem mem_byPosition {e : Nat × α} : e ∈ byPosition items wanted ↔ e.1 ∈ wanted ∧ items[e.1]? = some e.2 := by
  rw [byPosition, List.mem_filterMap]
  constructor
  · rintro ⟨i, hi, he⟩
    obtain ⟨x, hx, rfl⟩ := Option.map_eq_some_iff.1 he
    exact ⟨hi, hx⟩
  · rintro ⟨hi, hx⟩
    exact ⟨e.1, hi, by rw [hx]; rfl⟩

theorem byPosition_cons {x : α} (hx : items[i]? = some x) (wanted : List Nat) :
    byPosition items (i :: wanted) = (i, x) :: byPosition items wanted := by
  rw [byPosition, List.filterMap_cons, hx]
  rfl

/-- At positions of the collection, there is an element for each. -/
theorem map_fst_byPosition (h : ∀ i ∈ wanted, i < items.length) : (byPosition items wanted).map (·.1) = wanted := by
  induction wanted with
  | nil => rfl
  | cons i wanted ih =>
    obtain ⟨hi, hrest⟩ := List.forall_mem_cons.1 h
    rw [byPosition_cons (List.getElem?_eq_getElem hi), List.map_cons, ih hrest]

theorem le_last (h : wanted.Pairwise (· < ·)) (hi : i ∈ wanted) : i ≤ wanted.getLast?.getD 0 := by
  induction wanted using List.reverseRecOn with
  | nil => cases hi
  | append_singleton init last _ =>
    rw [List.getLast?_concat, Option.getD_some]
    rcases List.mem_append.1 hi with hi | hi
    · exact ((List.pairwise_append.1 h).2.2 i hi last (List.mem_singleton_self last)).le
    · exact (List.mem_singleton.1 hi).le

/-- Going through the elements finds the same as asking for them, at positions that increase. -/
theorem byEnumeration_eq (h : wanted.Pairwise (· < ·)) (hinside : ∀ i ∈ wanted, i < items.length) :
    byEnumeration items wanted = byPosition items wanted := by
  have hirrefl : Std.Irrefl fun e f : Nat × α => e.1 < f.1 := ⟨fun e => Nat.lt_irrefl e.1⟩
  have hantisymm : Std.Antisymm fun e f : Nat × α => e.1 < f.1 :=
    ⟨fun e f hef hfe => absurd hef (Nat.lt_asymm hfe)⟩
  have hordered : (byPosition items wanted).Pairwise fun e f => e.1 < f.1 := by
    rw [← List.pairwise_map (f := Prod.fst), map_fst_byPosition hinside]
    exact h
  refine ((pairwise_indexed items).filter _).eq_of_mem_iff hordered fun e => ?_
  rw [List.mem_filter, mem_indexed, mem_byPosition, Bool.and_eq_true, List.contains_iff_mem, decide_eq_true_iff]
  constructor
  · rintro ⟨hx, -, hi⟩
    exact ⟨hi, hx⟩
  · rintro ⟨hi, hx⟩
    exact ⟨hx, le_last h hi, hi⟩

/-! ## The sample -/

/-- Elements with their positions, in order and beginning with the first: all of them, or as many as the limit says, each
within one position of where an even spread has it. -/
structure IsSample (items : List α) (limit : Option Int) (pairs : List (Nat × α)) : Prop where
  element : ∀ e ∈ pairs, items[e.1]? = some e.2
  increasing : pairs.Pairwise fun e f => e.1 < f.1
  start : items ≠ [] → pairs.head?.map (·.1) = some 0
  whole : (∀ k, limit = some k → (items.length : Int) ≤ k) → pairs.length = items.length
  part : ∀ k, limit = some k → k < items.length → (pairs.length : Int) = k
  even : ∀ k, limit = some k → k < items.length → ∀ (i : Nat) e, pairs[i]? = some e →
    e.1 * k ≤ i * items.length ∧ i * items.length ≤ (e.1 + 1) * k

/-- All elements are a sample. -/
theorem isSample_indexed {limit : Option Int} (h : ∀ k, limit = some k → (items.length : Int) ≤ k) :
    IsSample items limit (indexed items) where
  element e he := mem_indexed.1 he
  increasing := pairwise_indexed items
  start hne := by
    rw [← List.head?_map, map_fst_indexed]
    cases items with
    | nil => exact absurd rfl hne
    | cons x xs => rw [List.length_cons, List.range_succ_eq_map, List.head?_cons]
  whole _ := by rw [← List.length_map (f := Prod.fst), map_fst_indexed, List.length_range]
  part k hk hlt := absurd (h k hk) (by omega)
  even k hk hlt := absurd (h k hk) (by omega)

/-- Those at the positions of a sample are one. -/
theorem isSample_byPosition (hpos : 0 < limit) (hlt : limit < items.length) (hsize : items.length < preciseSize) :
    IsSample items (some (limit : Int)) (byPosition items (positions items.length limit)) := by
  have hinside : ∀ i ∈ positions items.length limit, i < items.length := fun i hi =>
    lt_of_mem_positions hlt (le_trans (hlt.trans hsize).le (by decide)) hi
  have hfst := map_fst_byPosition hinside
  refine ⟨fun e he => (mem_byPosition.1 he).2, ?_, fun _ => ?_, fun h => ?_, fun k hk _ => ?_, fun k hk _ i e he => ?_⟩
  · rw [← List.pairwise_map (f := Prod.fst), hfst]
    exact pairwise_positions hlt hsize
  · rw [← List.head?_map, hfst]
    obtain ⟨m, rfl⟩ : ∃ m, limit = m + 1 := ⟨limit - 1, by omega⟩
    rw [positions, List.range_succ_eq_map, List.map_cons, List.head?_cons, position_zero]
  · exact absurd (h _ rfl) (by omega)
  · cases hk
    rw [← List.length_map (f := Prod.fst), hfst, positions, List.length_map, List.length_range]
  · cases hk
    have hat : (positions items.length limit)[i]? = some e.1 := by rw [← hfst, List.getElem?_map, he]; rfl
    rw [positions, List.getElem?_map, Option.map_eq_some_iff] at hat
    obtain ⟨j, hj, hposition⟩ := hat
    obtain ⟨hi, rfl⟩ := List.getElem?_eq_some_iff.1 hj
    rw [List.length_range] at hi
    rw [List.getElem_range] at hposition
    rw [← hposition]
    exact_mod_cast position_bounds hi hlt.le hsize

/-- Up to the limit, the elements are the first ones. -/
theorem sample_of_le (h : (items.length : Int) ≤ k) :
    sample access items.length (some k) items = (firstCount k).map fun _ => indexed items := by
  have hplan : plan access items.length (some k) = .ok (.first k) := by
    rw [plan, decide_eq_true h, Bool.or_true, if_pos rfl]
  rw [sample, hplan]
  change (firstCount k).map _ = _
  unfold firstCount
  split
  · rfl
  · change Except.ok (indexed (items.take k.toNat)) = .ok (indexed items)
    rw [List.take_of_length_le (by omega)]

/-- Beyond the limit, positions are wanted. -/
theorem sample_of_lt (haccess : access ≠ .unsized) (hpos : 0 < k) (h : k < items.length) :
    sample access items.length (some k) items =
      .ok (if access = .byIndex then byPosition items (positions items.length k.toNat)
        else byEnumeration items (positions items.length k.toNat)) := by
  have hplan : plan access items.length (some k) =
      .ok (if access == .byIndex then .pickOut (positions items.length k.toNat)
        else .goThrough (positions items.length k.toNat)) := by
    rw [plan, beq_eq_false_iff_ne.2 haccess, decide_eq_false (by omega), Bool.or_false, if_neg Bool.false_ne_true,
      if_neg (by simpa using hpos.ne')]
  rw [sample, hplan]
  have hwanted : (positions items.length k.toNat).isEmpty = false := by
    rw [positions, List.isEmpty_map, List.isEmpty_eq_false_iff, Ne, List.range_eq_nil]
    omega
  cases access with
  | unsized => exact absurd rfl haccess
  | byIndex => rfl
  | sized =>
    change Plan.pick items (.goThrough (positions items.length k.toNat)) = .ok (byEnumeration items _)
    rw [Plan.pick, hwanted, Bool.false_and, if_neg Bool.false_ne_true]

/-- Positions are asked for one by one only within the collection. -/
theorem lt_of_plan_pickOut {limit : Option Int} (h : plan access size limit = .ok (.pickOut wanted))
    (hsize : size ≤ preciseLimit) (hi : i ∈ wanted) : i < size := by
  obtain ⟨-, k, -, hk, rfl⟩ := plan_pickOut h
  obtain ⟨j, hj, -⟩ := List.mem_map.1 hi
  have hj := List.mem_range.1 hj
  have hlt : k.toNat < size := by omega
  exact lt_of_mem_positions hlt (hlt.le.trans hsize) hi

/-- The size of a collection does not matter where it is not asked for. -/
theorem plan_zero {limit : Option Int} (h : limit.isSome = true → access = .unsized) (size : Nat) :
    plan access 0 limit = plan access size limit := by
  cases limit with
  | none => rfl
  | some k => simp [plan, h rfl]

/-- With a limit that can be counted up to, a sample is taken, and it is the same one in both ways. -/
theorem exists_isSample (hsize : items.length < preciseSize) {limit : Option Int} (hlimit : IsProper limit) :
    ∃ pairs, IsSample items limit pairs ∧
      ∀ access, access ≠ .unsized → sample access items.length limit items = .ok pairs := by
  cases limit with
  | none => exact ⟨indexed items, isSample_indexed (by rintro k ⟨⟩), fun _ _ => rfl⟩
  | some k =>
    obtain ⟨hpos, hlargest⟩ := hlimit k rfl
    rcases le_or_gt (items.length : Int) k with hle | hlt
    · refine ⟨indexed items, isSample_indexed (by rintro k ⟨⟩; exact hle), fun access _ => ?_⟩
      have hcount : firstCount k = .ok k.toNat := by
        rw [firstCount, decide_eq_false (by omega), decide_eq_false (by omega), Bool.or_false, if_neg Bool.false_ne_true]
      rw [sample_of_le hle, hcount]
      rfl
    · lift k to ℕ using hpos.le
      have hlt' : k < items.length := by exact_mod_cast hlt
      refine ⟨_, isSample_byPosition (by exact_mod_cast hpos) hlt' hsize, fun access haccess => ?_⟩
      have hinside : ∀ i ∈ positions items.length k, i < items.length := fun i hi =>
        lt_of_mem_positions hlt' (le_trans (hlt'.trans hsize).le (by decide)) hi
      rw [sample_of_lt haccess hpos hlt, Int.toNat_natCast, byEnumeration_eq (pairwise_positions hlt' hsize) hinside,
        ite_self]

/-- With a limit that cannot, there is none. -/
theorem sample_out_of_range (hsize : items.length < preciseSize) (hlarge : largestLimit < k) (access : Access) :
    sample access items.length (some k) items = .error .limitOutOfRange := by
  have hle : (items.length : Int) ≤ k := by
    have hbound : (preciseSize : Int) ≤ largestLimit := by decide
    omega
  rw [sample_of_le hle, firstCount, decide_eq_true hlarge, Bool.or_true, if_pos rfl]
  rfl

end Sampling

namespace Judging

/-- Demands that are met one after the other, and then another. -/
theorem allOf_eq_foldr (demands : List (Judging Verdict)) : allOf demands = demands.foldr andThen (pure .yes) := by
  induction demands with
  | nil => rfl
  | cons demand demands ih => rw [allOf, ih, List.foldr_cons]

end Judging

namespace Context

open Judging

variable {ctx : Context} {v : Value} {items : List Value} {look : Nat → Value → Judging Verdict}

/-! ## What judging looks at -/

/-- Code that always gives the same and changes nothing is as good as its result. -/
theorem sampling_eq {α : Type} {run : Run α} {a : α} (h : ∀ w, run.run.run w = (.ok a, w)) :
    ctx.sampling run = pure a := by
  funext s
  change (ctx.sampling run).run.run s = (.ok a, s)
  unfold sampling
  rw [run_running, Run.run_tryCatch, h]

theorem next_known (items : List Value) :
    ctx.sampling (ctx.next (.known items)) = pure (items.head?.map fun x => (x, .known items.tail)) := by
  refine sampling_eq fun w => ?_
  cases items with
  | nil => rfl
  | cons x xs => rfl

/-- Going through known elements looks at the wanted ones, and then does what is left to do if there were enough. -/
theorem visit_known (wanted : Nat → Bool) (done : Judging Verdict) (left i : Nat) (items : List Value) :
    ctx.visit wanted look done left i (.known items) =
      ((((items.take left).zipIdx i).filter fun e => wanted e.2).map fun e => look e.2 e.1).foldr andThen
        (if left ≤ items.length then done else pure .yes) := by
  induction left generalizing i items with
  | zero => rfl
  | succ left ih =>
    rw [visit, next_known, pure_bind]
    cases items with
    | nil => rfl
    | cons x xs =>
      change (if wanted i then look i x else pure .yes).andThen (ctx.visit wanted look done left (i + 1) (.known xs)) = _
      rw [ih, List.take_succ_cons, List.zipIdx_cons, List.filter_cons]
      by_cases hi : wanted i = true
      · simp only [hi, if_true, List.map_cons, List.foldr_cons, List.length_cons, Nat.add_le_add_iff_right]
      · simp only [hi, Bool.false_eq_true, if_false, List.length_cons, Nat.add_le_add_iff_right]
        rfl

/-- Looking at elements one after the other. -/
abbrev lookAt (look : Nat → Value → Judging Verdict) (pairs : List (Nat × Value)) : Judging Verdict :=
  allOf (pairs.map fun e => look e.1 e.2)

theorem visit_all (done : Judging Verdict) (items : List Value) :
    ctx.visit (fun _ => true) look done (items.length + 1) 0 (.known items) = lookAt look (Sampling.indexed items) := by
  rw [visit_known, if_neg (by omega), lookAt, allOf_eq_foldr, List.take_of_length_le (by omega), List.filter_true,
    Sampling.indexed, List.map_map]
  rfl

theorem visit_first (count : Nat) (items : List Value) :
    ctx.visit (fun _ => true) look (pure .yes) count 0 (.known items)
      = lookAt look (Sampling.indexed (items.take count)) := by
  rw [visit_known, ite_self, lookAt, allOf_eq_foldr, List.filter_true, Sampling.indexed, List.map_map]
  rfl

/-- To leave out what comes after some position is to want none of it. -/
theorem filter_zipIdx_take (wanted : Nat → Bool) (items : List Value) (count i : Nat) :
    ((items.take count).zipIdx i).filter (fun e => wanted e.2) =
      (items.zipIdx i).filter fun e => decide (e.2 < i + count) && wanted e.2 := by
  induction items generalizing count i with
  | nil => rw [List.take_nil]; rfl
  | cons x xs ih =>
    cases count with
    | zero =>
      symm
      rw [List.take_zero, List.zipIdx_nil, List.filter_nil, List.filter_eq_nil_iff]
      intro e he
      have hpos := (List.mk_mem_zipIdx_iff_le_and_getElem?_sub.1 he).1
      simp [Nat.not_lt.2 hpos]
    | succ count =>
      rw [List.take_succ_cons, List.zipIdx_cons, List.zipIdx_cons, List.filter_cons, List.filter_cons, ih,
        decide_eq_true (show i < i + (count + 1) by omega), Bool.true_and, show i + 1 + count = i + (count + 1) by omega]

theorem visit_wanted {wanted : List Nat} {last : Nat} (hlast : wanted.getLast? = some last) (items : List Value) :
    ctx.visit wanted.contains look (pure .yes) (last + 1) 0 (.known items)
      = lookAt look (Sampling.byEnumeration items wanted) := by
  rw [visit_known, ite_self, lookAt, allOf_eq_foldr, filter_zipIdx_take, Sampling.byEnumeration, hlast,
    Option.getD_some, Sampling.indexed, List.filter_map, List.map_map]
  simp only [Nat.zero_add, Nat.lt_succ_iff]
  rfl

section Collected

variable (hv : ∀ w, ctx.program.Collects w v items)
include hv

theorem visitAt_eq (hsequence : ctx.program.isInstance v (.container "Sequence") = true) {wanted : List Nat}
    (hinside : ∀ i ∈ wanted, i < items.length) :
    ctx.visitAt v look wanted = lookAt look (Sampling.byPosition items wanted) := by
  induction wanted with
  | nil => rfl
  | cons i wanted ih =>
    obtain ⟨hi, hrest⟩ := List.forall_mem_cons.1 hinside
    have hx := List.getElem?_eq_getElem hi
    have hitem : ctx.sampling (ctx.item v (.int i)) = pure items[i] := sampling_eq fun w => (hv w).item hsequence i _ hx
    rw [visitAt, hitem, pure_bind, ih hrest, Sampling.byPosition_cons hx]
    rfl

theorem carryOut_eq {plan : Sampling.Plan}
    (hplan : ∀ wanted, plan = .pickOut wanted → ctx.program.isInstance v (.container "Sequence") = true ∧
      ∀ i ∈ wanted, i < items.length) :
    ctx.carryOut v look plan = demand (plan.pick items) >>= lookAt look := by
  have hfeed : ctx.sampling (ctx.feed v) = pure (.known items) := sampling_eq fun w => (hv w).feed
  cases plan with
  | all =>
    rw [carryOut, hfeed, pure_bind]
    exact visit_all _ items
  | first limit =>
    rw [carryOut, hfeed, pure_bind, Sampling.Plan.pick]
    cases Sampling.firstCount limit with
    | error e => rfl
    | ok count => exact visit_first count items
  | pickOut wanted =>
    obtain ⟨hsequence, hinside⟩ := hplan wanted rfl
    exact visitAt_eq hv hsequence hinside
  | goThrough wanted =>
    rw [carryOut, hfeed, pure_bind, Sampling.Plan.pick]
    cases hlast : wanted.getLast? with
    | some last =>
      have hwanted : wanted.isEmpty = false := by
        rw [List.isEmpty_eq_false_iff]
        rintro rfl
        cases hlast
      rw [hwanted, Bool.false_and, if_neg Bool.false_ne_true]
      exact visit_wanted hlast items
    | none =>
      rw [List.getLast?_eq_none_iff] at hlast
      subst hlast
      rw [next_known, pure_bind]
      cases items with
      | nil => rfl
      | cons x xs => rfl

/-- What is looked at in a collection is a sample of its elements. -/
theorem sampled_eq (hcell : v.isCell = false) (look : Nat → Value → Judging Verdict) :
    ctx.sampled v look =
      demand (Sampling.sample (ctx.access v) items.length ctx.sampleSize items) >>= lookAt look := by
  have hresolve : Judging.resolve v = pure v := by
    funext s
    exact congrArg (fun u => (Except.ok u, s)) (World.resolve_of_isCell hcell)
  have hplanned : demand (Sampling.plan (ctx.access v) items.length ctx.sampleSize) >>= ctx.carryOut v look =
      demand (Sampling.sample (ctx.access v) items.length ctx.sampleSize items) >>= lookAt look := by
    unfold Sampling.sample
    cases hplan : Sampling.plan (ctx.access v) items.length ctx.sampleSize with
    | error e => rfl
    | ok plan =>
      refine carryOut_eq hv ?_
      rintro wanted rfl
      exact ⟨isInstance_of_access (Sampling.plan_pickOut hplan).1,
        fun i hi => Sampling.lt_of_plan_pickOut hplan (hv default).length_le hi⟩
  unfold sampled
  rw [hresolve, pure_bind]
  by_cases hsized : (ctx.sampleSize.isSome && ctx.access v != .unsized) = true
  · have hsize : ctx.sampling (ctx.size v) = pure items.length := sampling_eq fun w => (hv w).size
    rw [if_pos hsized, hsize, pure_bind]
    exact hplanned
  · rw [if_neg hsized, pure_bind, ← hplanned, ← Sampling.plan_zero (by simpa using hsized) items.length]

end Collected

/-- **Samples are faithful.**  Of a collection of less than `Sampling.preciseSize` elements, a sample is the same whether
it is taken by position or by going through the collection, and it is what judging looks at; unless the limit cannot be
counted up to, which is a fault. -/
theorem sample_faithful (values : List Value) (limit : Option Int) (hsize : values.length < Sampling.preciseSize)
    (hlimit : ∀ k, limit = some k → 0 < k) :
    ((∀ k, limit = some k → k ≤ Sampling.largestLimit) → ∃ pairs, Sampling.IsSample values limit pairs ∧
      Sampling.sample .byIndex values.length limit values = .ok pairs ∧
      Sampling.sample .sized values.length limit values = .ok pairs ∧
      ∀ (ctx : Context) (cells : Nat → Prop) (v : Value) (look : Nat → Value → Judging Verdict),
        ctx.program.Separate → ctx.sampleSize = limit → v.BuiltIn cells → v.isCollection = true →
        v.items? = some values → ctx.isContainer v "Sized" = true →
        ctx.sampled v look = allOf (pairs.map fun e => look e.1 e.2)) ∧
    (∀ k, limit = some k → Sampling.largestLimit < k →
      (∀ access, Sampling.sample access values.length limit values = .error .limitOutOfRange) ∧
      ∀ (ctx : Context) (cells : Nat → Prop) (v : Value) (look : Nat → Value → Judging Verdict),
        ctx.program.Separate → ctx.sampleSize = limit → v.BuiltIn cells → v.isCollection = true →
        v.items? = some values → ctx.sampled v look = demand (.error .limitOutOfRange)) := by
  have hjudged (ctx : Context) (cells : Nat → Prop) (v : Value) (look : Nat → Value → Judging Verdict)
      (hp : ctx.program.Separate) (hctx : ctx.sampleSize = limit) (hv : v.BuiltIn cells)
      (hcollection : v.isCollection = true) (hitems : v.items? = some values) :
      ctx.sampled v look = demand (Sampling.sample (ctx.access v) values.length limit values) >>= lookAt look := by
    have hcollects (w : World) : ctx.program.Collects w v values :=
      hp.collects_of_length hv hcollection hitems (le_trans hsize.le (by decide))
    rw [sampled_eq hcollects (Value.isCell_of_isCollection hcollection), hctx]
  refine ⟨fun hlargest => ?_, fun k hk hlarge => ?_⟩
  · obtain ⟨pairs, hpairs, hsample⟩ :=
      Sampling.exists_isSample hsize fun k hk => ⟨hlimit k hk, hlargest k hk⟩
    refine ⟨pairs, hpairs, hsample .byIndex (by decide), hsample .sized (by decide), ?_⟩
    intro ctx cells v look hp hctx hv hcollection hitems hsized
    have haccess : ctx.access v ≠ .unsized := by
      rw [access, hsized]
      cases ctx.isContainer v "Sequence" <;> decide
    rw [hjudged ctx cells v look hp hctx hv hcollection hitems, hsample _ haccess]
    rfl
  · subst hk
    have hfault := Sampling.sample_out_of_range hsize hlarge
    refine ⟨hfault, fun ctx cells v look hp hctx hv hcollection hitems => ?_⟩
    rw [hjudged ctx cells v look hp hctx hv hcollection hitems, hfault]
    rfl

/-- Seven values to take a sample of. -/
def sevenValues : List Value := [10, 11, 12, 13, 14, 15, 16].map .int

theorem sample_faithful_seven :
    ∃ pairs, Sampling.IsSample sevenValues (some 3) pairs ∧
      Sampling.sample .byIndex sevenValues.length (some 3) sevenValues = .ok pairs ∧
      Sampling.sample .sized sevenValues.length (some 3) sevenValues = .ok pairs ∧ pairs.map (·.1) = [0, 2, 4] := by
  obtain ⟨pairs, hpairs, hindex, hsized, -⟩ :=
    (sample_faithful sevenValues (some 3) (by decide) (by rintro k ⟨⟩; decide)).1 (by rintro k ⟨⟩; decide)
  refine ⟨pairs, hpairs, hindex, hsized, ?_⟩
  have hpositions : (Sampling.sample .byIndex sevenValues.length (some 3) sevenValues).toOption.map (·.map (·.1))
      = some [0, 2, 4] := by decide +kernel
  rw [hindex] at hpositions
  exact Option.some.inj hpositions

end Context

end Conformance
