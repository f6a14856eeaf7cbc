import Mathlib
import Conformance.Proofs.Caches
import Conformance.Proofs.Law

/-!
# Registries that answer alike

After a judgement the registry keeps the names that were looked up.  What it keeps is what it would have answered
anyhow, so names mean the same before and after (`Registry.alike_replay`), and a judgement goes the same way with
either (`Context.satisfies_alike`).
-/

namespace Conformance

namespace Registry

/-- Names of classes and aliases mean the same to both. -/
structure Alike (r r' : Registry) : Prop where
  isAlias : r'.isAlias = r.isAlias
  classOf : r'.classOf = r.classOf
  expansionOf : r'.expansionOf = r.expansionOf

variable {r r' r'' : Registry}

theorem Alike.refl (r : Registry) : Alike r r := ⟨rfl, rfl, rfl⟩

theorem Alike.trans (h : Alike r r') (h' : Alike r' r'') : Alike r r'' :=
  ⟨h'.isAlias.trans h.isAlias, h'.classOf.trans h.classOf, h'.expansionOf.trans h.expansionOf⟩

/-- Interfaces mean the same where the same of them are declared and kept. -/
theorem interfaceOf_same (hinterfaces : r'.interfaces = r.interfaces) (hkept : r'.interfaceNodes = r.interfaceNodes) :
    r'.interfaceOf = r.interfaceOf := by
  refine interfaceOf_congr (congrArg Table.find? hinterfaces) (fun name k hk => ?_) fun name k hk => ?_
  · rw [hkept] at hk
    exact interfaceOf_of_kept hk
  · rw [← hkept] at hk
    exact interfaceOf_of_kept hk

/-- An alias means the same where the same is declared and kept of it, and interfaces mean the same. -/
theorem expansionOf_congr {name : String} (haliases : r'.aliases = r.aliases)
    (hkept : r'.expansions.find? (normalize name) = r.expansions.find? (normalize name))
    (hinterfaces : r'.interfaceOf = r.interfaceOf) : r'.expansionOf name = r.expansionOf name := by
  rw [Registry.expansionOf, Registry.expansionOf, haliases, hkept, hinterfaces]

theorem alike_resolveClass (r : Registry) (name : String) : Alike r (r.resolveClass name).2.1 where
  isAlias := isAlias_of_bare (bare_resolveClass r name)
  classOf := classOf_resolveClass r name
  expansionOf := by
    have hkept : ∃ resolved, (r.resolveClass name).2.1 = { r with resolved } := by
      unfold resolveClass
      dsimp only
      split
      · exact ⟨r.resolved, rfl⟩
      · split
        · exact ⟨r.resolved, rfl⟩
        · exact ⟨_, rfl⟩
    obtain ⟨resolved, hresolved⟩ := hkept
    rw [hresolved]
    exact funext fun _ => expansionOf_congr rfl rfl (interfaceOf_same rfl rfl)

theorem alike_rememberAll (r : Registry) (mentions : List String) : Alike r (r.rememberAll mentions) where
  isAlias := isAlias_of_bare (bare_rememberAll r mentions)
  classOf := classOf_rememberAll r mentions
  expansionOf := by
    have hsame := withoutNodes_rememberAll r mentions
    have hkept : (r.rememberAll mentions).expansions = r.expansions := congrArg (·.expansions) hsame
    exact funext fun _ => expansionOf_congr (congrArg (·.aliases) hsame) (by rw [hkept])
      (interfaceOf_rememberAll r mentions)

/-- To keep what an alias means anyhow. -/
theorem alike_keepExpansion {name : String} {kept : Kept TypeExpr} (serial : Nat)
    (hmeans : r.expansionOf name = .ok kept.node) :
    Alike r { r with serial, expansions := r.expansions.insert (normalize name) kept } where
  isAlias := rfl
  classOf := rfl
  expansionOf := by
    funext other
    by_cases hother : normalize other = normalize name
    · have hsame : r.expansionOf other = r.expansionOf name := by
        rw [Registry.expansionOf, hother]
        rfl
      rw [hsame, hmeans, Registry.expansionOf, hother, Table.find?_insert_self]
    · exact expansionOf_congr rfl (Table.find?_insert_of_ne _ _ hother) (interfaceOf_same rfl rfl)

theorem alike_expandAlias (r : Registry) (name : String) : Alike r (r.expandAlias name).2 := by
  obtain hsame | ⟨text, after, hafter, hread⟩ := r.expandAlias_cases name
  · rw [hsame]
    exact .refl r
  · have halike : Alike r after := hafter ▸ alike_rememberAll r _
    obtain hsame | ⟨kept, serial, -, hmeans, hkept⟩ := hread
    · rwa [hsame]
    · rw [hkept]
      refine halike.trans (alike_keepExpansion serial ?_)
      rw [halike.expansionOf, hmeans]

/-- What a judgement looked up does not change what names mean. -/
theorem alike_replay (r : Registry) (events : List Event) : Alike r (r.replay events).1 := by
  induction events generalizing r with
  | nil => exact .refl r
  | cons event rest ih =>
    cases event with
    | resolved name => exact (alike_resolveClass r name).trans (ih _)
    | expanded name => exact (alike_expandAlias r name).trans (ih _)
    | noted record => exact ih r

end Registry

/-! ## Judging with either -/

namespace Context

open Judging

variable (ctx : Context) (r : Registry)

/-- The context with another registry. -/
def consulting : Context := { ctx with registry := r }

theorem visit_consulting : (ctx.consulting r).visit = ctx.visit := by
  funext wanted look done left
  induction left with
  | zero => rfl
  | succ left ih =>
    funext i feed
    simp only [visit, ih]
    rfl

theorem visitAt_consulting : (ctx.consulting r).visitAt = ctx.visitAt := by
  funext v look wanted
  induction wanted with
  | nil => rfl
  | cons i rest ih =>
    simp only [visitAt, ih]
    rfl

theorem sampled_consulting : (ctx.consulting r).sampled = ctx.sampled := by
  have hcarry : (ctx.consulting r).carryOut = ctx.carryOut := by
    funext v look plan
    cases plan with
    | pickOut wanted => simp only [carryOut, visitAt_consulting]
    | _ =>
      simp only [carryOut, visit_consulting]
      rfl
  funext v look
  simp only [sampled, hcarry]
  rfl

theorem isAmong_consulting : (ctx.consulting r).isAmong = ctx.isAmong := by
  funext v ts
  induction ts with
  | nil => rfl
  | cons t ts ih =>
    cases t with
    | ofClass c =>
      simp only [isAmong, ih]
      rfl
    | ofModule home => rfl

theorem judgeTuple_consulting : (ctx.consulting r).judgeTuple = ctx.judgeTuple := by
  have helements : (ctx.consulting r).judgeElements = ctx.judgeElements := by
    funext judge path i feed ts
    induction ts generalizing i feed with
    | nil => rfl
    | cons t ts ih =>
      simp only [judgeElements, ih]
      rfl
  funext judge ts v path
  simp only [judgeTuple, helements]
  rfl

theorem judgeRecord_consulting : (ctx.consulting r).judgeRecord = ctx.judgeRecord := by
  have hfields : (ctx.consulting r).judgeFields = ctx.judgeFields := by
    funext judge v path reject fields
    induction fields with
    | nil => rfl
    | cons f fields ih =>
      simp only [judgeFields, ih]
      rfl
  have hothers : (ctx.consulting r).judgeOthers = ctx.judgeOthers := by
    funext judge fields extra v path reject fuel
    induction fuel with
    | zero => rfl
    | succ fuel ih =>
      funext feed
      simp only [judgeOthers, ih]
      rfl
  funext judge fields extra v path
  simp only [judgeRecord, hfields, hothers]
  rfl

theorem judgeMembers_consulting : (ctx.consulting r).judgeMembers = ctx.judgeMembers := by
  funext judge first others v path
  simp only [judgeMembers, judgeEntries, sampled_consulting]
  rfl

variable {ctx r}

theorem judgeWith_alike (h : ctx.registry.Alike r) : (ctx.consulting r).judgeWith = ctx.judgeWith := by
  have hregistry : (ctx.consulting r).registry = r := rfl
  have htarget : (ctx.consulting r).target = ctx.target := by
    funext name
    rw [target, target, hregistry, h.classOf]
  funext judge v t path
  cases t with
  | classRef name args =>
    simp only [judgeWith, judgeClassRef, hregistry, h.isAlias, h.expansionOf, htarget, judgeMembers_consulting]
    rfl
  | singleton name =>
    simp only [judgeWith, judgeSingleton, htarget]
    rfl
  | tuple ts => simp only [judgeWith, judgeTuple_consulting]
  | record fields extra => simp only [judgeWith, judgeRecord_consulting]
  | _ => rfl

theorem judge_alike (h : ctx.registry.Alike r) (fuel : Nat) : (ctx.consulting r).judge fuel = ctx.judge fuel := by
  induction fuel with
  | zero => rfl
  | succ fuel ih =>
    funext v t path
    simp only [judge, judgeUnlessDouble, ih, judgeWith_alike h, isAmong_consulting]
    rfl

/-- A judgement goes the same way with a registry that answers alike. -/
theorem satisfies_alike (h : ctx.registry.Alike r) : (ctx.consulting r).satisfies = ctx.satisfies := by
  funext v t slot
  unfold satisfies
  exact congrFun (congrFun (congrFun (judge_alike h _) v) t) _

end Context

end Conformance
