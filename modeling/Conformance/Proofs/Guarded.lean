import Conformance.Proofs.SignatureFaults

/-!
# Guarded aliases

A value is judged against an alias by being judged against its expansion, against a union by its alternatives, and
against an optional type by what is optional: each time it is the same value (`TypeExpr.Facet`).  Everywhere else it
is a part of the value that is judged next.  A registry is guarded if no alias comes back to itself by facets alone
(`Registry.Guarded`); through the arguments of a class, a tuple or a record it may.

Then the same value passes each alias at most once (`Registry.Met`), and with the height of the types in between and
the depth of the value that bounds how deep a judgement goes (`Registry.recursionBound`).

Two checks that can be run tell that a registry is fit to be judged by: aliases in layers are guarded
(`Registry.guarded_of_isLayered`), and in a complete registry no type that it knows leads to a name without a meaning
(`Registry.not_leads_of_isComplete`).
-/

namespace Conformance

namespace TypeExpr

/-! ## Heights -/

mutual

/-- How deep the types that values are judged against are nested in a type. -/
def height : TypeExpr → Nat
  | classRef _ args => heightAll args + 1
  | union ts => heightAll ts + 1
  | intersection ts => heightAll ts + 1
  | tuple ts => heightAll ts + 1
  | record fields extra => max (heightFields fields) (heightOption extra) + 1
  | optional inner => inner.height + 1
  | _ => 0

/-- The height of the highest of some types. -/
def heightAll : List TypeExpr → Nat
  | [] => 0
  | t :: ts => max t.height (heightAll ts)

/-- The height of the highest field. -/
def heightFields : List (Field TypeExpr) → Nat
  | [] => 0
  | ⟨_, type, _⟩ :: fs => max type.height (heightFields fs)

/-- The height of an optional type expression. -/
def heightOption : Option TypeExpr → Nat
  | none => 0
  | some t => t.height

end

theorem height_le_heightAll {ts : List TypeExpr} {t : TypeExpr} (h : t ∈ ts) : t.height ≤ heightAll ts := by
  induction ts with
  | nil => cases h
  | cons u us ih =>
    rw [heightAll]
    rcases List.mem_cons.1 h with rfl | h
    · exact Nat.le_max_left _ _
    · exact (ih h).trans (Nat.le_max_right _ _)

theorem height_le_heightFields {fs : List (Field TypeExpr)} {f : Field TypeExpr} (h : f ∈ fs) :
    f.type.height ≤ heightFields fs := by
  induction fs with
  | nil => cases h
  | cons g gs ih =>
    obtain ⟨key, type, required⟩ := g
    rw [heightFields]
    rcases List.mem_cons.1 h with rfl | h
    · exact Nat.le_max_left _ _
    · exact (ih h).trans (Nat.le_max_right _ _)

/-- Judging goes on with the expansion of an alias, or with a type that stands in one that is no alias. -/
theorem Part.expanded_or_plain {r : Registry} {t u : TypeExpr} (h : Part r t u) :
    (∃ name args, t = .classRef name args ∧ r.isAlias name = true ∧ r.expansionOf name = .ok u)
      ∨ ∀ name args, t = .classRef name args → r.isAlias name = false := by
  cases h with
  | expansion halias ht => exact .inl ⟨_, _, rfl, halias, ht⟩
  | argument halias _ =>
    refine .inr fun name args heq => ?_
    cases heq
    exact halias
  | alternative | conjunct | element | field | extra | inner => exact .inr fun _ _ heq => by cases heq

/-- Except for the expansion of an alias, the types that judging goes on with are lower. -/
theorem Part.height_lt {r : Registry} {t u : TypeExpr} (h : Part r t u)
    (halias : ∀ name args, t = .classRef name args → r.isAlias name = false) : u.height < t.height := by
  cases h with
  | @expansion name args _ h _ =>
    rw [halias name args rfl] at h
    cases h
  | argument _ h | alternative h | conjunct h | element h =>
    rw [height]
    exact Nat.lt_succ_of_le (height_le_heightAll h)
  | field h =>
    rw [height]
    exact Nat.lt_succ_of_le ((height_le_heightFields h).trans (Nat.le_max_left _ _))
  | extra =>
    rw [height, heightOption]
    exact Nat.lt_succ_of_le (Nat.le_max_right _ _)
  | inner =>
    rw [height]
    exact Nat.lt_succ_self _

/-! ## Facets -/

mutual

/-- The names that stand in a type under unions, intersections and optional types only. -/
def exposed : TypeExpr → List String
  | classRef name _ => [name]
  | union ts => exposedAll ts
  | intersection ts => exposedAll ts
  | optional inner => inner.exposed
  | _ => []

/-- The names that are exposed in some types. -/
def exposedAll : List TypeExpr → List String
  | [] => []
  | t :: ts => t.exposed ++ exposedAll ts

end

theorem exposed_subset_exposedAll {ts : List TypeExpr} {t : TypeExpr} (h : t ∈ ts) : t.exposed ⊆ exposedAll ts := by
  induction ts with
  | nil => cases h
  | cons u us ih =>
    rw [exposedAll]
    rcases List.mem_cons.1 h with rfl | h
    · exact List.subset_append_left _ _
    · exact List.subset_append_of_subset_right _ (ih h)

/-- One step from a type to a type that the same value is judged against. -/
inductive Facet (r : Registry) : TypeExpr → TypeExpr → Prop
  | expansion {name : String} {args : List TypeExpr} {t : TypeExpr} (halias : r.isAlias name = true)
      (ht : r.expansionOf name = .ok t) : Facet r (.classRef name args) t
  | alternative {ts : List TypeExpr} {t : TypeExpr} (ht : t ∈ ts) : Facet r (.union ts) t
  | conjunct {ts : List TypeExpr} {t : TypeExpr} (ht : t ∈ ts) : Facet r (.intersection ts) t
  | inner {t : TypeExpr} : Facet r (.optional t) t

theorem Facet.part {r : Registry} {t u : TypeExpr} (h : Facet r t u) : Part r t u := by
  cases h with
  | expansion halias ht => exact .expansion halias ht
  | alternative ht => exact .alternative ht
  | conjunct ht => exact .conjunct ht
  | inner => exact .inner

end TypeExpr

namespace Registry

open TypeExpr

variable {name : String}

/-- No alias comes back to itself by facets alone. -/
def Guarded (r : Registry) : Prop :=
  ∀ name args name' args', Relation.TransGen (Facet r) (.classRef name args) (.classRef name' args') →
    normalize name' ≠ normalize name

/-- The aliases that a value has been judged against on the way to a type: they lead there by facets, and no two of
them are alike. -/
structure Met (r : Registry) (met : List String) (t : TypeExpr) : Prop where
  nodup : met.Nodup
  known : met ⊆ r.aliases.map (·.1)
  leads : ∀ key ∈ met, ∃ name args, normalize name = key ∧ Relation.TransGen (Facet r) (.classRef name args) t

namespace Met

variable {r : Registry} {met : List String} {t u : TypeExpr}

theorem nil (r : Registry) (t : TypeExpr) : r.Met [] t :=
  ⟨List.nodup_nil, List.nil_subset _, fun _ h => absurd h List.not_mem_nil⟩

theorem facet (h : r.Met met t) (hu : Facet r t u) : r.Met met u := by
  refine ⟨h.nodup, h.known, fun key hkey => ?_⟩
  obtain ⟨name, args, hname, hleads⟩ := h.leads key hkey
  exact ⟨name, args, hname, hleads.tail hu⟩

theorem length_le (h : r.Met met t) : met.length ≤ r.aliases.length := by
  have hle := (List.subperm_of_subset h.nodup h.known).length_le
  rwa [List.length_map] at hle

/-- In a guarded registry, an alias that is expanded has not been met before. -/
theorem expand {args : List TypeExpr} (hr : r.Guarded) (h : r.Met met (.classRef name args))
    (halias : r.isAlias name = true) (ht : r.expansionOf name = .ok t) : r.Met (normalize name :: met) t := by
  have hfacet : Facet r (.classRef name args) t := .expansion halias ht
  have hnew : normalize name ∉ met := by
    intro hmem
    obtain ⟨name', args', hname, hleads⟩ := h.leads _ hmem
    exact hr name' args' name args hleads hname.symm
  have hknown : normalize name ∈ r.aliases.map (·.1) := by
    obtain ⟨text, htext⟩ := Option.isSome_iff_exists.1 halias
    exact List.mem_map.2 ⟨_, Table.mem_of_find? htext, rfl⟩
  refine ⟨List.nodup_cons.2 ⟨hnew, h.nodup⟩, List.cons_subset.2 ⟨hknown, h.known⟩, fun key hkey => ?_⟩
  rcases List.mem_cons.1 hkey with rfl | hkey
  · exact ⟨name, args, rfl, .single hfacet⟩
  · exact (h.facet hfacet).leads key hkey

end Met

/-! ## Layers -/

/-- What the alias under a key stands for. -/
def expansionAt (r : Registry) (key : String) : Except Fault TypeExpr :=
  match r.expansions.find? key with
  | some kept => .ok kept.node
  | none =>
    match r.aliases.find? key with
    | none => .error (.unknownAlias key)
    | some text => (readType r.interfaceOf [] text).result

theorem expansionOf_eq (r : Registry) (name : String) : r.expansionOf name = r.expansionAt (normalize name) := rfl

/-- Do the aliases that are exposed in the expansion of another rank below it? -/
def isLayered (r : Registry) (rank : String → Nat) : Bool :=
  r.aliases.all fun e => (r.expansionAt e.1).toOption.all fun t =>
    t.exposed.all fun name => !r.isAlias name || decide (rank (normalize name) < rank e.1)

section Layers

variable {r : Registry} {rank : String → Nat} (h : r.isLayered rank = true)
include h

theorem rank_lt_of_expansion {other : String} {t : TypeExpr} (halias : r.isAlias name = true)
    (ht : r.expansionOf name = .ok t) (hother : other ∈ t.exposed) (hexposed : r.isAlias other = true) :
    rank (normalize other) < rank (normalize name) := by
  obtain ⟨text, htext⟩ := Option.isSome_iff_exists.1 halias
  have hlayer := List.all_eq_true.1 h _ (Table.mem_of_find? htext)
  rw [← expansionOf_eq, ht] at hlayer
  have hname := List.all_eq_true.1 hlayer other hother
  rw [hexposed] at hname
  simpa using hname

/-- What an alias leads to by facets exposes lower aliases only. -/
theorem rank_lt_of_facets {other : String} {args : List TypeExpr} {t : TypeExpr}
    (hfacets : Relation.TransGen (Facet r) (.classRef name args) t) (hother : other ∈ t.exposed)
    (hexposed : r.isAlias other = true) : rank (normalize other) < rank (normalize name) := by
  induction hfacets generalizing other with
  | single hfacet =>
    cases hfacet with
    | expansion halias ht => exact rank_lt_of_expansion h halias ht hother hexposed
  | tail _ hfacet ih =>
    cases hfacet with
    | expansion halias ht =>
      have hbelow := ih List.mem_cons_self halias
      exact (rank_lt_of_expansion h halias ht hother hexposed).trans hbelow
    | alternative ht => exact ih (exposed_subset_exposedAll ht hother) hexposed
    | conjunct ht => exact ih (exposed_subset_exposedAll ht hother) hexposed
    | inner => exact ih hother hexposed

/-- Where aliases expose only lower ones, none comes back to itself. -/
theorem guarded_of_isLayered : r.Guarded := by
  intro name args name' args' hfacets heq
  have halias : r.isAlias name = true := by
    obtain ⟨u, hfacet, -⟩ := Relation.TransGen.head'_iff.1 hfacets
    cases hfacet with
    | expansion halias _ => exact halias
  rw [isAlias, ← heq] at halias
  have hlt := rank_lt_of_facets h hfacets List.mem_cons_self halias
  rw [heq] at hlt
  exact Nat.lt_irrefl _ hlt

end Layers

/-! ## Completeness -/

/-- Do the class names in a type mean something? -/
def knows (r : Registry) (t : TypeExpr) : Bool := (t.classNames r.isAlias).all fun name => (r.classOf name).isOk

/-- Can every alias be expanded, and does its expansion have no class names but such that mean something? -/
def isComplete (r : Registry) : Bool := r.aliases.all fun e => (r.expansionAt e.1).toOption.any r.knows

section Complete

variable {r : Registry} {t u : TypeExpr}

theorem expansion_of_isComplete (hr : r.isComplete = true) (halias : r.isAlias name = true) :
    ∃ t, r.expansionOf name = .ok t ∧ r.knows t = true := by
  obtain ⟨text, htext⟩ := Option.isSome_iff_exists.1 halias
  have hknown := List.all_eq_true.1 hr _ (Table.mem_of_find? htext)
  rw [← expansionOf_eq] at hknown
  cases ht : r.expansionOf name with
  | error e =>
    rw [ht] at hknown
    exact nomatch hknown
  | ok t =>
    rw [ht] at hknown
    exact ⟨t, rfl, hknown⟩

theorem knows_of_part (hr : r.isComplete = true) (ht : r.knows t = true) (hu : Part r t u) : r.knows u = true := by
  obtain ⟨name, args, rfl, halias, hexpansion⟩ | hplain := hu.expanded_or_plain
  · obtain ⟨t, ht, hknown⟩ := expansion_of_isComplete hr halias
    rw [hexpansion] at ht
    cases ht
    exact hknown
  · refine List.all_eq_true.2 fun name hname => List.all_eq_true.1 ht name ?_
    exact mem_classNames_of_child (hu.mem_children hplain) hplain hname

theorem not_dangles_of_knows (hr : r.isComplete = true) (ht : r.knows t = true) (e : Fault) : ¬ t.Dangles r e := by
  have hclass : ∀ name ∈ t.classNames r.isAlias, r.classOf name ≠ .error e := by
    intro name hname herror
    have hok := List.all_eq_true.1 ht name hname
    rw [herror] at hok
    exact nomatch hok
  intro hdangles
  cases hdangles with
  | expansion halias herror =>
    obtain ⟨t, ht, -⟩ := expansion_of_isComplete hr halias
    rw [ht] at herror
    cases herror
  | className halias herror =>
    refine hclass _ ?_ herror
    rw [classNames, halias]
    exact List.mem_cons_self
  | singleton herror => exact hclass _ (List.mem_singleton_self _) herror

/-- In a complete registry, judging by a type whose class names mean something leads to none that does not. -/
theorem not_leads_of_isComplete (hr : r.isComplete = true) (ht : r.knows t = true) (e : Fault) : ¬ t.Leads r e := by
  rintro ⟨u, hwithin, hdangles⟩
  induction hwithin using Relation.ReflTransGen.head_induction_on with
  | refl => exact not_dangles_of_knows hr ht e hdangles
  | head hpart _ ih => exact ih (knows_of_part hr ht hpart)

end Complete

/-! ## The bound -/

/-- The height of the highest expansion of an alias. -/
def expansionHeight (r : Registry) : Nat :=
  (r.aliases.map fun e => (r.expansionAt e.1).toOption.elim 0 height).foldr max 0

theorem height_le_expansionHeight {r : Registry} {t : TypeExpr} (halias : r.isAlias name = true)
    (ht : r.expansionOf name = .ok t) : t.height ≤ r.expansionHeight := by
  obtain ⟨text, htext⟩ := Option.isSome_iff_exists.1 halias
  rw [expansionOf_eq] at ht
  refine List.le_max_of_le (List.mem_map_of_mem (Table.mem_of_find? htext)) ?_
  rw [ht]
  exact Nat.le_refl _

/-- How deep judging may have to go.  On each level of the value every alias is passed at most once, and between two
of them there are no more levels than a type has. -/
def recursionBound (r : Registry) (t : TypeExpr) (depth : Nat) : Nat :=
  (depth + 1) * ((r.aliases.length + 1) * (max t.height r.expansionHeight + 1))

/-- How deep judging may still have to go, against a type of a height, when so many of the aliases have not been met;
`aliases` is their number and `top` is no less than any height. -/
def budget (aliases top depth unmet height : Nat) : Nat :=
  depth * ((aliases + 1) * (top + 1)) + unmet * (top + 1) + height + 1

section Budget

variable {aliases top depth unmet height height' : Nat}

theorem budget_facet (h : height' < height) :
    budget aliases top depth unmet height' < budget aliases top depth unmet height := by
  unfold budget
  omega

theorem budget_expansion (h : height' ≤ top) :
    budget aliases top depth unmet height' < budget aliases top depth (unmet + 1) height := by
  unfold budget
  rw [Nat.succ_mul unmet]
  omega

theorem budget_part {depth' : Nat} (hdepth : depth' < depth) (h : height' ≤ top) :
    budget aliases top depth' aliases height' < budget aliases top depth unmet height := by
  have hlevel : (depth' + 1) * ((aliases + 1) * (top + 1)) ≤ depth * ((aliases + 1) * (top + 1)) :=
    Nat.mul_le_mul_right _ hdepth
  have hone : (aliases + 1) * (top + 1) = aliases * (top + 1) + (top + 1) := Nat.succ_mul _ _
  unfold budget
  rw [Nat.succ_mul depth'] at hlevel
  omega

end Budget

theorem height_le_of_part {r : Registry} {t u : TypeExpr} {top : Nat} (hu : Part r t u)
    (hexpansions : r.expansionHeight ≤ top) (ht : t.height ≤ top) : u.height ≤ top := by
  obtain ⟨name, args, rfl, halias, hexpansion⟩ | hplain := hu.expanded_or_plain
  · exact (height_le_expansionHeight halias hexpansion).trans hexpansions
  · exact (hu.height_lt hplain).le.trans ht

/-- In a guarded registry every facet costs something of the budget. -/
theorem Met.budget_lt {r : Registry} {met : List String} {t u : TypeExpr} {top : Nat} (hr : r.Guarded)
    (hexpansions : r.expansionHeight ≤ top) (h : r.Met met t) (hu : Facet r t u) (depth : Nat) :
    ∃ met', r.Met met' u ∧ budget r.aliases.length top depth (r.aliases.length - met'.length) u.height
      < budget r.aliases.length top depth (r.aliases.length - met.length) t.height := by
  obtain ⟨name, args, rfl, halias, ht⟩ | hplain := hu.part.expanded_or_plain
  · have hmet := h.expand hr halias ht
    have hlength := hmet.length_le
    refine ⟨normalize name :: met, hmet, ?_⟩
    rw [List.length_cons] at hlength ⊢
    rw [show r.aliases.length - met.length = r.aliases.length - (met.length + 1) + 1 by omega]
    exact budget_expansion ((height_le_expansionHeight halias ht).trans hexpansions)
  · exact ⟨met, h.facet hu, budget_facet (hu.part.height_lt hplain)⟩

theorem budget_le_recursionBound (r : Registry) (t : TypeExpr) (depth : Nat) :
    budget r.aliases.length (max t.height r.expansionHeight) depth r.aliases.length t.height
      ≤ r.recursionBound t depth := by
  have hheight : t.height ≤ max t.height r.expansionHeight := Nat.le_max_left _ _
  unfold budget recursionBound
  generalize max t.height r.expansionHeight = top at *
  have hone : (r.aliases.length + 1) * (top + 1) = r.aliases.length * (top + 1) + (top + 1) := Nat.succ_mul _ _
  rw [Nat.succ_mul depth]
  omega

theorem depth_lt_recursionBound (r : Registry) (t : TypeExpr) (depth : Nat) : depth < r.recursionBound t depth := by
  unfold recursionBound
  exact Nat.lt_of_lt_of_le (Nat.lt_succ_self depth) (Nat.le_mul_of_pos_right _ (by positivity))

end Registry

end Conformance
