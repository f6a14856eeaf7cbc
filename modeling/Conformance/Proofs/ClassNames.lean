import Conformance.Proofs.TypeTree
import Conformance.TypeExpr.ClassNames

/-!
# The class names in a type

A class name has to mean something if it stands in a type outside of the references to aliases.  So the class names in
a type are those in its children, and its own, unless it refers to an alias (`mem_classNames_of_child`,
`mem_classNames_cases`); and the more names are aliases, the fewer class names there are (`classNames_subset`).
-/

namespace Conformance

namespace TypeExpr

variable {isAlias : String → Bool} {x : String}

theorem mem_classNamesAll {ts : List TypeExpr} :
    x ∈ classNamesAll isAlias ts ↔ ∃ t ∈ ts, x ∈ t.classNames isAlias := by
  induction ts with
  | nil => simp [classNamesAll]
  | cons t ts ih => simp [classNamesAll, ih]

theorem mem_classNamesFields {fields : List (Field TypeExpr)} :
    x ∈ classNamesFields isAlias fields ↔ ∃ f ∈ fields, x ∈ f.type.classNames isAlias := by
  induction fields with
  | nil => simp [classNamesFields]
  | cons f fields ih => simp [classNamesFields, ih]

theorem mem_classNamesOption {t : Option TypeExpr} :
    x ∈ classNamesOption isAlias t ↔ ∃ u ∈ t, x ∈ u.classNames isAlias := by
  cases t <;> simp [classNamesOption]

theorem mem_classNamesGroup {ps : List (Param TypeExpr)} :
    x ∈ classNamesGroup isAlias ps ↔ ∃ q ∈ ps, x ∈ q.type.classNames isAlias := by
  induction ps with
  | nil => simp [classNamesGroup]
  | cons q ps ih => simp [classNamesGroup, ih]

theorem mem_classNamesParam? {p : Option (Param TypeExpr)} :
    x ∈ classNamesParam? isAlias p ↔ ∃ q ∈ p, x ∈ q.type.classNames isAlias := by
  cases p <;> simp [classNamesParam?]

theorem mem_classNamesKeywords {ps : List (String × Param TypeExpr)} :
    x ∈ classNamesKeywords isAlias ps ↔ ∃ kq ∈ ps, x ∈ kq.2.type.classNames isAlias := by
  induction ps with
  | nil => simp [classNamesKeywords]
  | cons kq ps ih => simp [classNamesKeywords, ih]

theorem mem_classNamesParams {p : Params TypeExpr} :
    x ∈ classNamesParams isAlias p ↔ ∃ t ∈ p.types, x ∈ t.classNames isAlias := by
  obtain ⟨required, optional, rest, trailing, requiredKeywords, optionalKeywords, restKeywords⟩ := p
  simp only [classNamesParams, Params.types, Params.list, Params.keywords, List.mem_append, List.mem_map,
    Option.mem_toList, Option.mem_def, mem_classNamesGroup, mem_classNamesKeywords, mem_classNamesParam?,
    exists_exists_and_eq_and, List.map_append, or_and_right, exists_or]
  ac_nf

theorem mem_classNamesBlock {b : Option (Block TypeExpr)} :
    x ∈ classNamesBlock isAlias b ↔ ∃ t ∈ b.elim [] Block.types, x ∈ t.classNames isAlias := by
  cases b with
  | none => simp [classNamesBlock]
  | some b => simp [classNamesBlock, mem_classNamesParams, Block.types, or_and_right, exists_or]

/-- The class names in a type that is no alias: those in its parts, and its own. -/
theorem mem_classNames_of_child {t u : TypeExpr} (hu : u ∈ t.children)
    (ht : ∀ name args, t = .classRef name args → isAlias name = false) (hx : x ∈ u.classNames isAlias) :
    x ∈ t.classNames isAlias := by
  cases t with
  | classRef name args =>
    rw [classNames, if_neg (by simp [ht name args rfl])]
    exact List.mem_cons_of_mem _ (mem_classNamesAll.2 ⟨u, hu, hx⟩)
  | union ts | intersection ts | tuple ts => exact mem_classNamesAll.2 ⟨u, hu, hx⟩
  | record fields extra =>
    rw [classNames, List.mem_append, mem_classNamesFields, mem_classNamesOption]
    rcases List.mem_append.1 hu with hu | hu
    · obtain ⟨f, hf, rfl⟩ := List.mem_map.1 hu
      exact .inl ⟨f, hf, hx⟩
    · exact .inr ⟨u, Option.mem_toList.1 hu, hx⟩
  | optional inner =>
    cases List.mem_singleton.1 hu
    exact hx
  | proc params result block =>
    rw [classNames, List.mem_append, List.mem_append, mem_classNamesParams, mem_classNamesBlock]
    rcases List.mem_append.1 hu with hu | hu
    · rcases List.mem_append.1 hu with hu | hu
      · exact .inl (.inl ⟨u, hu, hx⟩)
      · cases List.mem_singleton.1 hu
        exact .inl (.inr hx)
    · exact .inr ⟨u, hu, hx⟩
  | _ => cases hu

theorem mem_classNames_signature {s : Signature} {t : TypeExpr} (ht : t ∈ s.types) (hx : x ∈ t.classNames isAlias) :
    x ∈ s.classNames isAlias := by
  rw [Signature.classNames, List.mem_append, List.mem_append, mem_classNamesParams, mem_classNamesBlock]
  rcases List.mem_append.1 ht with ht | ht
  · rcases List.mem_append.1 ht with ht | ht
    · exact .inl (.inl ⟨t, ht, hx⟩)
    · exact .inl (.inr ⟨t, ht, hx⟩)
  · cases List.mem_singleton.1 ht
    exact .inr hx

/-- A class name in a type is its own, or one in a child of a type that is no alias. -/
theorem mem_classNames_cases {t : TypeExpr} (hx : x ∈ t.classNames isAlias) :
    (∃ args, t = .classRef x args ∧ isAlias x = false) ∨ t = .singleton x ∨
      (∀ name args, t = .classRef name args → isAlias name = false) ∧ ∃ u ∈ t.children, x ∈ u.classNames isAlias := by
  cases t with
  | classRef name args =>
    rw [classNames] at hx
    split at hx
    · cases hx
    · rename_i halias
      rcases List.mem_cons.1 hx with rfl | hx
      · exact .inl ⟨args, rfl, by simpa using halias⟩
      · refine .inr (.inr ⟨?_, mem_classNamesAll.1 hx⟩)
        rintro _ _ ⟨⟩
        simpa using halias
  | singleton name => exact .inr (.inl (congrArg _ (List.mem_singleton.1 hx).symm))
  | union ts | intersection ts | tuple ts =>
    exact .inr (.inr ⟨by rintro _ _ ⟨⟩, mem_classNamesAll.1 hx⟩)
  | record fields extra =>
    refine .inr (.inr ⟨by rintro _ _ ⟨⟩, ?_⟩)
    rw [classNames, List.mem_append, mem_classNamesFields, mem_classNamesOption] at hx
    rcases hx with ⟨f, hf, hx⟩ | ⟨u, hu, hx⟩
    · exact ⟨f.type, List.mem_append_left _ (List.mem_map_of_mem hf), hx⟩
    · exact ⟨u, List.mem_append_right _ (Option.mem_toList.2 hu), hx⟩
  | optional inner => exact .inr (.inr ⟨by rintro _ _ ⟨⟩, inner, List.mem_singleton_self _, hx⟩)
  | proc params result block =>
    refine .inr (.inr ⟨by rintro _ _ ⟨⟩, ?_⟩)
    rw [classNames, List.mem_append, List.mem_append, mem_classNamesParams, mem_classNamesBlock] at hx
    rcases hx with (⟨u, hu, hx⟩ | hx) | ⟨u, hu, hx⟩
    · exact ⟨u, List.mem_append_left _ (List.mem_append_left _ hu), hx⟩
    · exact ⟨result, List.mem_append_left _ (List.mem_append_right _ (List.mem_singleton_self _)), hx⟩
    · exact ⟨u, List.mem_append_right _ hu, hx⟩
  | _ => cases hx

/-- Where more names are aliases, there are fewer class names. -/
theorem classNames_subset {isAlias' : String → Bool} (h : ∀ name, isAlias name = true → isAlias' name = true)
    (t : TypeExpr) : t.classNames isAlias' ⊆ t.classNames isAlias := by
  have hnot {name : String} (hname : isAlias' name = false) : isAlias name = false := by
    by_contra htrue
    rw [h name (by simpa using htrue)] at hname
    cases hname
  induction t using childInduction with
  | _ t ih =>
    intro x hx
    rcases mem_classNames_cases hx with ⟨args, rfl, hplain⟩ | rfl | ⟨hplain, u, hu, hx⟩
    · rw [classNames, hnot hplain]
      exact List.mem_cons_self
    · exact List.mem_singleton_self _
    · exact mem_classNames_of_child hu (fun name args ht => hnot (hplain name args ht)) (ih u hu hx)

end TypeExpr

/-- The same for a signature. -/
theorem Signature.classNames_subset {isAlias isAlias' : String → Bool}
    (h : ∀ name, isAlias name = true → isAlias' name = true) (s : Signature) :
    s.classNames isAlias' ⊆ s.classNames isAlias := by
  intro x hx
  rw [Signature.classNames, List.mem_append, List.mem_append, TypeExpr.mem_classNamesParams,
    TypeExpr.mem_classNamesBlock] at hx ⊢
  refine hx.imp (Or.imp ?_ ?_) fun hx => TypeExpr.classNames_subset h _ hx
  · rintro ⟨t, ht, hx⟩
    exact ⟨t, ht, TypeExpr.classNames_subset h t hx⟩
  · rintro ⟨t, ht, hx⟩
    exact ⟨t, ht, TypeExpr.classNames_subset h t hx⟩

end Conformance
