import Mathlib
import Conformance.TypeExpr

/-!
# Types as trees

`TypeExpr.children` are the types that stand in a type as it is written: arguments, parts, elements, fields,
parameters, results and the block of a proc.  What an interface asks for is not written in the type and does
not count.

`Contains` is the relation between a type and what stands in it at any depth, and `Everywhere` says something
of all of that.  `childInduction` is the induction on types that goes with them.
-/

namespace Conformance

namespace Params

variable {τ : Type}

/-- All parameters, group by group. -/
def list (p : Params τ) : List (Param τ) :=
  p.required ++ p.optional ++ p.rest.toList ++ p.trailing ++ p.keywords.map (·.2) ++ p.restKeywords.toList

/-- The types of all parameters. -/
def types (p : Params τ) : List τ := p.list.map (·.type)

end Params

namespace Block

variable {τ : Type}

/-- The types in a block: those of its parameters, and its result. -/
def types (b : Block τ) : List τ := b.params.types ++ [b.result]

end Block

/-- The types in a signature: those of its parameters and of its block, and its result. -/
def Signature.types (s : Signature) : List TypeExpr := s.params.types ++ s.block.elim [] Block.types ++ [s.result]

namespace TypeExpr

variable {t : TypeExpr} {P : TypeExpr → Prop}

/-- The types that stand directly in a type. -/
def children : TypeExpr → List TypeExpr
  | classRef _ args => args
  | union ts | intersection ts | tuple ts => ts
  | record fields extra => fields.map (·.type) ++ extra.toList
  | optional inner => [inner]
  | proc params result block => params.types ++ [result] ++ block.elim [] Block.types
  | _ => []

section Size

private theorem sizeOf_group {ps : List (Param TypeExpr)} {q : Param TypeExpr} (h : q ∈ ps) :
    sizeOf q.type < sizeOf ps := by
  have := List.sizeOf_lt_of_mem h
  obtain ⟨type, name⟩ := q
  simp only [Param.mk.sizeOf_spec] at this ⊢
  omega

private theorem sizeOf_param? {p : Option (Param TypeExpr)} {q : Param TypeExpr} (h : q ∈ p.toList) :
    sizeOf q.type < sizeOf p := by
  obtain rfl : p = some q := by simpa using h
  obtain ⟨type, name⟩ := q
  simp only [Option.some.sizeOf_spec, Param.mk.sizeOf_spec]
  omega

private theorem sizeOf_keyword {ps : List (String × Param TypeExpr)} {kq : String × Param TypeExpr} (h : kq ∈ ps) :
    sizeOf kq.2.type < sizeOf ps := by
  have := List.sizeOf_lt_of_mem h
  obtain ⟨key, type, name⟩ := kq
  simp only [Prod.mk.sizeOf_spec, Param.mk.sizeOf_spec] at this ⊢
  omega

private theorem sizeOf_params {p : Params TypeExpr} (h : t ∈ p.types) : sizeOf t < sizeOf p := by
  obtain ⟨req, opt, rest, trailing, reqKeys, optKeys, restKeys⟩ := p
  obtain ⟨q, hq, rfl⟩ := List.mem_map.mp h
  simp only [Params.list, Params.keywords, List.mem_append, List.map_append, List.mem_map] at hq
  simp only [Params.mk.sizeOf_spec]
  rcases hq with ((((hq | hq) | hq) | hq) | ⟨kq, hkq, rfl⟩ | ⟨kq, hkq, rfl⟩) | hq
  · have := sizeOf_group hq; omega
  · have := sizeOf_group hq; omega
  · have := sizeOf_param? hq; omega
  · have := sizeOf_group hq; omega
  · have := sizeOf_keyword hkq; omega
  · have := sizeOf_keyword hkq; omega
  · have := sizeOf_param? hq; omega

theorem sizeOf_child {u : TypeExpr} (h : u ∈ t.children) : sizeOf u < sizeOf t := by
  cases t with
  | classRef name ts | union ts | intersection ts | tuple ts =>
    have : sizeOf u < sizeOf ts := List.sizeOf_lt_of_mem h
    simp +arith only [classRef.sizeOf_spec, union.sizeOf_spec, intersection.sizeOf_spec, tuple.sizeOf_spec]
    omega
  | optional inner =>
    obtain rfl : u = inner := by simpa [children] using h
    simp only [optional.sizeOf_spec]; omega
  | record fields extra =>
    simp only [children, List.mem_append, List.mem_map, Option.mem_toList] at h
    simp only [record.sizeOf_spec]
    rcases h with ⟨⟨key, type, required⟩, hf, rfl⟩ | rfl
    · have := List.sizeOf_lt_of_mem hf
      simp only [Field.mk.sizeOf_spec] at this ⊢
      omega
    · simp only [Option.some.sizeOf_spec]; omega
  | proc params result block =>
    simp only [children, List.mem_append, List.mem_singleton] at h
    simp only [proc.sizeOf_spec]
    rcases h with (h | rfl) | h
    · have := sizeOf_params h; omega
    · omega
    · cases block with
      | none => simp at h
      | some b =>
        obtain ⟨params, result, required⟩ := b
        simp only [Option.elim_some, Block.types, List.mem_append, List.mem_singleton] at h
        simp only [Option.some.sizeOf_spec, Block.mk.sizeOf_spec]
        rcases h with h | rfl
        · have := sizeOf_params h; omega
        · omega
  | _ => simp [children] at h

end Size

/-- Induction on a type by the types that stand in it. -/
@[elab_as_elim]
theorem childInduction {motive : TypeExpr → Prop}
    (step : ∀ t, (∀ u ∈ t.children, motive u) → motive t) (t : TypeExpr) : motive t :=
  step t fun u _ => childInduction step u
termination_by sizeOf t
decreasing_by exact sizeOf_child ‹_›

/-! ## What stands in a type -/

/-- The second type stands in the first, at any depth. -/
def Contains : TypeExpr → TypeExpr → Prop := Relation.ReflTransGen fun t u => u ∈ t.children

/-- Does the variable occur in the type? -/
def HasVar (t : TypeExpr) (name : String) : Prop := t.Contains (.typeVar name)

/-- The predicate holds of the type and of all that stands in it. -/
def Everywhere (P : TypeExpr → Prop) (t : TypeExpr) : Prop := ∀ u, t.Contains u → P u

theorem Contains.refl (t : TypeExpr) : t.Contains t := Relation.ReflTransGen.refl

theorem Contains.of_child {u x : TypeExpr} (h : u ∈ t.children) (hx : u.Contains x) : t.Contains x :=
  Relation.ReflTransGen.head h hx

theorem contains_iff {x : TypeExpr} : t.Contains x ↔ t = x ∨ ∃ u ∈ t.children, u.Contains x :=
  Relation.ReflTransGen.cases_head_iff

theorem everywhere_iff : t.Everywhere P ↔ P t ∧ ∀ u ∈ t.children, u.Everywhere P := by
  constructor
  · exact fun h => ⟨h t (.refl t), fun u hu x hx => h x (.of_child hu hx)⟩
  · rintro ⟨ht, hchildren⟩ x hx
    rcases contains_iff.mp hx with rfl | ⟨u, hu, hux⟩
    · exact ht
    · exact hchildren u hu x hux

theorem Everywhere.here (h : t.Everywhere P) : P t := h t (.refl t)

theorem Everywhere.child {u : TypeExpr} (h : t.Everywhere P) (hu : u ∈ t.children) : u.Everywhere P :=
  (everywhere_iff.mp h).2 u hu

end TypeExpr

end Conformance
