import Conformance.Proofs.Law
import Conformance.Proofs.Reachability

/-!
# How bindings grow

While a value is judged in a slot, the bindings only grow, and only in ways that belong to the slot.  `Grows` says
how: nothing bound is lost, an origin stays, classes are added at the end and only once, what other slots have
bound stays as it is, and what is new is bound by this slot and is a variable of the type.

That is a law of judgements (`growthLaw`), so all there is to show is that meeting a type variable keeps to it
(`judgeTypeVar_grows`); `satisfies_grows` follows.
-/

namespace Conformance

variable {name : String}

namespace Bindings

variable {old : Binding}

/-! ## Looking up and setting -/

theorem lookup_map_set {binding : Binding} (x : String) (entries : List (String × Binding)) :
    (entries.map fun e => if e.1 == name then (name, binding) else e).lookup x =
      if x = name then (entries.lookup x).map fun _ => binding else entries.lookup x := by
  induction entries with
  | nil => simp
  | cons e entries ih =>
    obtain ⟨y, old⟩ := e
    rw [List.map_cons, List.lookup_cons, List.lookup_cons, ih]
    by_cases hy : y = name
    · by_cases hx : x = name
      · simp [hy, hx]
      · simp [hy, hx, beq_eq_false_iff_ne.mpr hx]
    · by_cases hx : x = name
      · simp [hy, hx, beq_eq_false_iff_ne.mpr (Ne.symm hy)]
      · simp [hy, hx]

theorem get?_set_self (b : Bindings) (name : String) (binding : Binding) :
    (b.set name binding).get? name = some binding := by
  unfold set
  split
  · rename_i hbound
    obtain ⟨old, hold⟩ := Option.isSome_iff_exists.mp hbound
    unfold get? at hold ⊢
    rw [lookup_map_set, if_pos rfl, hold, Option.map_some]
  · rename_i hfree
    have hnone : b.entries.lookup name = none := by
      rwa [contains, Option.not_isSome_iff_eq_none] at hfree
    simp [get?, List.lookup_append, hnone]

theorem get?_set_of_ne (b : Bindings) {x : String} (binding : Binding) (hx : x ≠ name) :
    (b.set name binding).get? x = b.get? x := by
  unfold set
  split
  · unfold get?
    rw [lookup_map_set, if_neg hx]
  · have hne : (x == name) = false := beq_eq_false_iff_ne.mpr hx
    simp [get?, List.lookup_append, List.lookup_cons, hne]

/-! ## Growth -/

/-- What one binding may become. -/
structure Grown (slots allowed : String → Prop) (x : String) (old new : Binding) : Prop where
  origin : new.origin = old.origin
  types : old.types <+: new.types
  nodup : old.types.Nodup → new.types.Nodup
  changed : new ≠ old → slots old.origin ∧ allowed x

/-- How bindings may change in some slots, if only some variables may be bound there. -/
structure Grows (slots allowed : String → Prop) (b b' : Bindings) : Prop where
  kept : ∀ x old, b.get? x = some old → ∃ new, b'.get? x = some new ∧ Grown slots allowed x old new
  added : ∀ x new, b.get? x = none → b'.get? x = some new → slots new.origin ∧ new.types.Nodup ∧ allowed x

variable {slots slots' allowed allowed' : String → Prop} {a b c : Bindings} {x : String}

theorem Grown.refl (old : Binding) : Grown slots allowed x old old :=
  ⟨rfl, List.prefix_rfl, id, fun h => absurd rfl h⟩

theorem Grown.trans {mid new : Binding} (h : Grown slots allowed x old mid) (h' : Grown slots allowed x mid new) :
    Grown slots allowed x old new where
  origin := h'.origin.trans h.origin
  types := h.types.trans h'.types
  nodup hold := h'.nodup (h.nodup hold)
  changed hne := by
    by_cases hmid : mid = old
    · subst hmid
      exact h'.changed hne
    · exact h.changed hmid

theorem Grows.refl (b : Bindings) : Grows slots allowed b b where
  kept _ old hold := ⟨old, hold, .refl old⟩
  added _ _ hnone hsome := by rw [hnone] at hsome; cases hsome

theorem Grows.trans (h : Grows slots allowed a b) (h' : Grows slots allowed b c) : Grows slots allowed a c where
  kept x old hold := by
    obtain ⟨mid, hmid, hgrown⟩ := h.kept x old hold
    obtain ⟨new, hnew, hgrown'⟩ := h'.kept x mid hmid
    exact ⟨new, hnew, hgrown.trans hgrown'⟩
  added x new hnone hnew := by
    cases hmid : b.get? x with
    | none => exact h'.added x new hmid hnew
    | some mid =>
      obtain ⟨horigin, hnodup, hallowed⟩ := h.added x mid hnone hmid
      obtain ⟨new', hnew', hgrown⟩ := h'.kept x mid hmid
      obtain rfl : new' = new := by rw [hnew'] at hnew; exact Option.some.inj hnew
      exact ⟨hgrown.origin ▸ horigin, hgrown.nodup hnodup, hallowed⟩

/-- What was bound by another slot stays as it is. -/
theorem Grows.frozen (h : Grows slots allowed a b) (hold : a.get? x = some old) (horigin : ¬ slots old.origin) :
    b.get? x = some old := by
  obtain ⟨new, hnew, hgrown⟩ := h.kept x old hold
  by_cases hne : new = old
  · exact hne ▸ hnew
  · exact absurd (hgrown.changed hne).1 horigin

theorem grows_bind {origin : String} {c : ClassId} (hfree : b.get? name = none) (hslot : slots origin)
    (hname : allowed name) : Grows slots allowed b (b.bind name c origin) where
  kept x old hold := by
    have hx : x ≠ name := by
      rintro rfl
      rw [hfree] at hold
      cases hold
    exact ⟨old, (get?_set_of_ne b _ hx).trans hold, .refl old⟩
  added x new hnone hnew := by
    by_cases hx : x = name
    · subst hx
      rw [bind, get?_set_self] at hnew
      cases hnew
      exact ⟨hslot, List.nodup_singleton c, hname⟩
    · rw [bind, get?_set_of_ne b _ hx, hnone] at hnew
      cases hnew

theorem grows_widen {c : ClassId} (hold : b.get? name = some old) (hslot : slots old.origin) (hname : allowed name) :
    Grows slots allowed b ((b.widen? name c).getD b) := by
  simp only [widen?, hold, Option.map_some, Option.getD_some]
  split
  · exact .refl b
  · rename_i hnew
    constructor
    · intro x before hbefore
      by_cases hx : x = name
      · subst hx
        obtain rfl : before = old := by rw [hold] at hbefore; exact (Option.some.inj hbefore).symm
        refine ⟨_, get?_set_self b x _, rfl, List.prefix_append _ _, fun hnodup => ?_, fun _ => ⟨hslot, hname⟩⟩
        refine (List.perm_append_singleton c before.types).nodup_iff.mpr (List.nodup_cons.mpr ⟨?_, hnodup⟩)
        simpa using hnew
      · exact ⟨before, (get?_set_of_ne b _ hx).trans hbefore, .refl before⟩
    · intro x new hnone hafter
      have hx : x ≠ name := by
        rintro rfl
        rw [hold] at hnone
        cases hnone
      rw [get?_set_of_ne b _ hx, hnone] at hafter
      cases hafter

end Bindings

/-! ## Growth as a law -/

open Judging

/-- Bindings grow in some slots, and any fault may occur. -/
def growthLaw (slots allowed : String → Prop) : Law where
  step := Option.Rel (Bindings.Grows slots allowed)
  faults _ := True
  refl b := by
    cases b with
    | none => exact .none
    | some b => exact .some (.refl b)
  trans hab hbc := by
    cases hab with
    | none => exact hbc
    | some hab =>
      cases hbc with
      | some hbc => exact .some (hab.trans hbc)
  inspection _ _ := trivial

namespace Judging.Law.Obeyed

variable {α : Type} {m : Judging α} {slots allowed : String → Prop} {s : Scene} {b b' : Bindings}

/-- What there is of growth in a computation that keeps to the law. -/
theorem exists_grows (h : (growthLaw slots allowed).Obeyed m) (hb : s.bindings = some b) :
    ∃ b', (m.run.run s).2.bindings = some b' ∧ Bindings.Grows slots allowed b b' := by
  have hstep : Option.Rel (Bindings.Grows slots allowed) s.bindings (m.run.run s).2.bindings := (h s).1
  rw [hb] at hstep
  generalize (m.run.run s).2.bindings = after at hstep
  cases hstep with
  | some hgrows => exact ⟨_, rfl, hgrows⟩

theorem grows (h : (growthLaw slots allowed).Obeyed m) (hb : s.bindings = some b)
    (hb' : (m.run.run s).2.bindings = some b') : Bindings.Grows slots allowed b b' := by
  obtain ⟨after, hafter, hgrows⟩ := h.exists_grows hb
  rw [hb'] at hafter
  cases hafter
  exact hgrows

end Judging.Law.Obeyed

namespace Context

variable {ctx : Context} {slots allowed : String → Prop}

theorem judgeTypeVar_grows {path : Path} (hslot : slots path.slot) (hname : allowed name) (v : Value) :
    (growthLaw slots allowed).Obeyed (ctx.judgeTypeVar name v path) := by
  rintro ⟨world, bindings, events⟩
  refine ⟨?_, fun _ _ => trivial⟩
  unfold judgeTypeVar
  rw [run_bind, run_get]
  dsimp only
  cases bindings with
  | none => exact .none
  | some b =>
    dsimp only
    cases hold : b.get? name with
    | none => exact .some (Bindings.grows_bind hold hslot hname)
    | some old =>
      dsimp only
      split
      · exact .some (Bindings.Grows.refl b)
      · split
        · rename_i horigin
          have horigin : old.origin = path.slot := by simpa using horigin
          exact .some (Bindings.grows_widen hold (horigin ▸ hslot) hname)
        · exact .some (Bindings.Grows.refl b)

/-- A type variable that judging comes upon occurs in the type. -/
theorem hasVar_of_within {r : Registry} (hr : r.Reachable) {t : TypeExpr} {x : String}
    (h : TypeExpr.Within r t (.typeVar x)) : t.HasVar x := by
  induction h using Relation.ReflTransGen.head_induction_on with
  | refl => exact .refl _
  | head hpart _ ih =>
    cases hpart with
    | expansion _ ht => exact absurd ih (hr.expansion_closed ht x)
    | argument _ ht => exact .of_child ht ih
    | alternative ht => exact .of_child ht ih
    | conjunct ht => exact .of_child ht ih
    | element ht => exact .of_child ht ih
    | field hf => exact .of_child (List.mem_append_left _ (List.mem_map_of_mem hf)) ih
    | extra => exact .of_child (List.mem_append_right _ (by simp)) ih
    | inner => exact .of_child List.mem_cons_self ih

/-- Judging a value in a slot makes the bindings grow in that slot, by variables of the type. -/
theorem satisfies_grows (hr : ctx.registry.Reachable) {slot : String} {t : TypeExpr} (hslot : slots slot)
    (hvars : ∀ x, t.HasVar x → allowed x) (v : Value) :
    (growthLaw slots allowed).Obeyed (ctx.satisfies v t slot) := by
  refine satisfies_obeys (fun u hu => admits_of_typeVar ?_) v
  rintro x rfl w steps
  exact judgeTypeVar_grows hslot (hvars x (hasVar_of_within hr hu)) w

end Context

end Conformance
