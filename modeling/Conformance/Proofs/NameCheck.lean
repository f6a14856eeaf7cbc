import Mathlib
import Conformance.Proofs.Caches
import Conformance.Proofs.Layout
import Conformance.Proofs.SignatureFaults

/-!
# Names are checked when a signature is read

A class name is used in a signature if it stands anywhere in it (`Signature.Uses`), in a parameter of any group, in the
block or in the result, however deep, but not among the arguments of an alias: those are never looked at.  The names that
are looked up when the signature is read are just these (`Signature.mem_classNames_iff`).

Main statement: `Registry.signature_checks_names`.  A signature can be read if and only if all names in use mean
something; if one does not, it is reported as unknown and nothing is kept.  So without aliases in the signature, no value
that is judged by it later can come upon an unknown name.
-/

namespace Conformance

namespace TypeExpr

/-! ## Names in use -/

/-- The type is no reference to an alias. -/
def IsPlain (isAlias : String → Bool) (t : TypeExpr) : Prop :=
  ∀ name args, t = .classRef name args → isAlias name = false

/-- The second type stands in the first at any depth, but not among the arguments of an alias. -/
def Shows (isAlias : String → Bool) : TypeExpr → TypeExpr → Prop :=
  Relation.ReflTransGen fun t u => t.IsPlain isAlias ∧ u ∈ t.children

/-- The type is a reference to a class of this name, or the class itself as a value. -/
inductive Names (isAlias : String → Bool) : TypeExpr → String → Prop
  | className {name : String} {args : List TypeExpr} (h : isAlias name = false) :
      Names isAlias (.classRef name args) name
  | singleton {name : String} : Names isAlias (.singleton name) name

variable {isAlias : String → Bool} {t u : TypeExpr} {x : String}

theorem mem_classNames_of_names (h : t.Names isAlias x) : x ∈ t.classNames isAlias := by
  cases h with
  | className h =>
    rw [classNames, h]
    exact List.mem_cons_self
  | singleton => exact List.mem_singleton_self _

/-- The class names in a type are those in use in it. -/
theorem mem_classNames_iff : x ∈ t.classNames isAlias ↔ ∃ u, t.Shows isAlias u ∧ u.Names isAlias x := by
  constructor
  · induction t using childInduction with
    | _ t ih =>
      intro hx
      rcases mem_classNames_cases hx with ⟨args, rfl, hplain⟩ | rfl | ⟨hplain, u, hu, hx⟩
      · exact ⟨_, .refl, .className hplain⟩
      · exact ⟨_, .refl, .singleton⟩
      · obtain ⟨y, hshows, hnames⟩ := ih u hu hx
        exact ⟨y, .head ⟨hplain, hu⟩ hshows, hnames⟩
  · rintro ⟨u, hshows, hnames⟩
    induction hshows using Relation.ReflTransGen.head_induction_on with
    | refl => exact mem_classNames_of_names hnames
    | head hstep _ ih => exact mem_classNames_of_child hstep.2 hstep.1 ih

theorem Shows.contains (h : t.Shows isAlias u) : t.Contains u := by
  induction h with
  | refl => exact .refl t
  | tail _ hstep ih => exact .tail ih hstep.2

/-- Without aliases, all that stands in a type counts. -/
theorem Contains.shows (h : t.Contains u) (hplain : t.Everywhere (IsPlain isAlias)) : t.Shows isAlias u := by
  induction h using Relation.ReflTransGen.head_induction_on with
  | refl => exact .refl
  | head hu _ ih => exact .head ⟨hplain.here, hu⟩ (ih (hplain.child hu))

/-! ## Types without aliases -/

theorem Within.isPlain {r : Registry} (h : t.Within r u) (hplain : t.Everywhere (IsPlain r.isAlias)) :
    u.IsPlain r.isAlias := by
  induction h using Relation.ReflTransGen.head_induction_on with
  | refl => exact hplain.here
  | head hpart _ ih => exact ih (hplain.child (hpart.mem_children hplain.here))

/-- Judging by a type without aliases, whose class names all mean something, leads to no fault of a name. -/
theorem not_leads_of_isPlain {r : Registry} {e : Fault} (hplain : t.Everywhere (IsPlain r.isAlias))
    (hnames : ∀ name ∈ t.classNames r.isAlias, ∃ c, r.classOf name = .ok c) : ¬ t.Leads r e := by
  intro hleads
  obtain ⟨name, args, hwithin, halias, -⟩ := hleads.hides hnames
  rw [Within.isPlain hwithin hplain name args rfl] at halias
  cases halias

end TypeExpr

namespace Signature

/-- The type stands somewhere in the signature. -/
def Holds (s : Signature) (t : TypeExpr) : Prop := ∃ u ∈ s.types, u.Contains t

/-- The class name is used in the signature. -/
def Uses (isAlias : String → Bool) (s : Signature) (name : String) : Prop :=
  ∃ t ∈ s.types, ∃ u, t.Shows isAlias u ∧ u.Names isAlias name

/-- No alias is used in the signature. -/
def AliasFree (isAlias : String → Bool) (s : Signature) : Prop := ∀ t, s.Holds t → t.IsPlain isAlias

variable {isAlias : String → Bool} {s : Signature} {t : TypeExpr} {name : String}

/-- What is looked up for a signature are the names in use in it. -/
theorem mem_classNames_iff : name ∈ s.classNames isAlias ↔ s.Uses isAlias name := by
  unfold Uses
  simp only [← TypeExpr.mem_classNames_iff, classNames, types, List.mem_append, TypeExpr.mem_classNamesParams,
    TypeExpr.mem_classNamesBlock, List.mem_singleton, or_and_right, exists_or, exists_eq_left]

theorem AliasFree.everywhere (h : s.AliasFree isAlias) (ht : s.Holds t) : t.Everywhere (TypeExpr.IsPlain isAlias) := by
  obtain ⟨u, hu, hcontains⟩ := ht
  exact fun x hx => h x ⟨u, hu, hcontains.trans hx⟩

/-- Without aliases, the class names of every type in the signature are in use. -/
theorem AliasFree.uses (h : s.AliasFree isAlias) (ht : s.Holds t) (hname : name ∈ t.classNames isAlias) :
    s.Uses isAlias name := by
  obtain ⟨u, hu, hcontains⟩ := ht
  obtain ⟨x, hshows, hnames⟩ := TypeExpr.mem_classNames_iff.1 hname
  have hfirst : u.Shows isAlias t := hcontains.shows (h.everywhere ⟨u, hu, .refl u⟩)
  exact ⟨u, hu, x, hfirst.trans hshows, hnames⟩

/-- A signature is free of aliases if none of the names that stand anywhere in it is one. -/
theorem aliasFree_of_uses (h : ∀ name, s.Uses (fun _ => false) name → isAlias name = false) : s.AliasFree isAlias := by
  rintro t ⟨u, hu, hcontains⟩ name args rfl
  have hshows : u.Shows (fun _ => false) (.classRef name args) := hcontains.shows fun _ _ _ _ _ => rfl
  exact h name ⟨u, hu, _, hshows, .className rfl⟩

end Signature

namespace Registry

/-! ## Names as they are written -/

theorem dotted_cons {c : Char} (h : c ≠ ':') (cs : List Char) : dotted (c :: cs) = c :: dotted cs := by
  rw [dotted]
  rintro cs rfl
  exact absurd rfl h

/-- What a name that was read is looked up by starts as the name does. -/
theorem toList_normalize {sp : Spelling} (hsp : sp.Valid) :
    ∃ c cs, (normalize sp.qualified.text).toList = c :: cs ∧ Text.isWordStart c = true := by
  obtain ⟨c, cs, hfirst, hc, -⟩ := Text.isWord_iff.1 (Text.isName_iff.1 hsp.1).1
  have hbare : sp.qualified.bare.toList = _ := Spelling.toList_foldl_extend sp.parts ⟨sp.first, sp.rooted, sp.first⟩
  rw [hfirst, List.cons_append] at hbare
  generalize cs ++ _ = rest at hbare
  have hcolon : c ≠ ':' := by
    rintro rfl
    exact absurd hc (by decide)
  refine ⟨c, dotted rest, ?_, hc⟩
  rw [normalize, String.toList_ofList, Parser.QualifiedName.text]
  by_cases hrooted : sp.qualified.rooted = true
  · rw [if_pos hrooted, String.toList_append, hbare]
    exact dotted_cons hcolon rest
  · rw [if_neg hrooted, hbare]
    split
    · rename_i heq
      exact absurd (List.cons.inj heq).1 hcolon
    · exact dotted_cons hcolon rest

theorem searchable_normalize {sp : Spelling} (hsp : sp.Valid) : searchable (normalize sp.qualified.text) = .ok () := by
  obtain ⟨c, cs, hkey, hc⟩ := toList_normalize hsp
  generalize normalize sp.qualified.text = key at hkey ⊢
  have hdot : c ≠ '.' := by
    rintro rfl
    exact absurd hc (by decide)
  have hempty : key.isEmpty = false := by
    rw [String.isEmpty_eq_false_iff]
    rintro rfl
    cases hkey
  have hstart : key.startsWith "." = false := by
    rw [String.startsWith_string_eq_false_iff, hkey]
    exact fun hdots => hdot (List.cons_prefix_cons.1 hdots).1.symm
  rw [searchable, hempty, hstart]
  rfl

theorem classOf_error {r : Registry} {name : String} {e : Fault} (hname : searchable (normalize name) = .ok ())
    (h : r.classOf name = .error e) : e = .unknownName .ofClass name := by
  unfold classOf at h
  split at h
  · cases h
  · unfold findClass at h
    dsimp only at h
    rw [hname] at h
    split at h
    · rename_i v _
      cases htarget : Target.ofValue? v with
      | some c =>
        rw [htarget] at h
        cases h
      | none =>
        rw [htarget] at h
        cases h
        rfl
    · split at h <;> cases h
      rfl

/-- A name in use that means nothing is reported as unknown: what was read is never too strange to be looked for. -/
theorem eq_unknownName {r : Registry} {s : Signature} {name : String} {e : Fault} (hread : s.Read r.interfaceOf)
    (huses : s.Uses r.isAlias name) (h : r.classOf name = .error e) : e = .unknownName .ofClass name := by
  obtain ⟨t, ht, u, hshows, hnames⟩ := huses
  have hnode := hread.types ht u hshows.contains
  cases hnames with
  | className hplain =>
    obtain ⟨sp, hsp, rfl, -⟩ := hnode
    exact classOf_error (searchable_normalize hsp) h
  | singleton =>
    obtain ⟨sp, hsp, rfl⟩ := hnode
    exact classOf_error (searchable_normalize hsp) h

/-! ## Looking the names up -/

theorem isAlias_signature (r : Registry) (text : String) : (r.signature text).2.1.isAlias = r.isAlias := by
  rcases signature_cases r text with ⟨kept, -, hkept⟩ | ⟨e, -, hbare⟩ | ⟨kept, -, -, -, hbare⟩
  · rw [hkept]
  · exact isAlias_of_bare hbare
  · change (r.signature text).2.1.bare.isAlias = r.isAlias
    rw [hbare]
    rfl

theorem resolveAll_error {r : Registry} {names : List String} {e : Fault} (h : (r.resolveAll names).1 = .error e) :
    ∃ name ∈ names, r.classOf name = .error e := by
  induction names generalizing r with
  | nil => cases h
  | cons name names ih =>
    have hclassOf := classOf_resolveClass r name
    rw [resolveAll] at h
    split at h <;> rename_i hone
    · cases h
      exact ⟨name, List.mem_cons_self, resolveClass_fst r name ▸ congrArg Prod.fst hone⟩
    · rw [hone] at hclassOf
      obtain ⟨other, hother, herror⟩ := ih h
      exact ⟨other, List.mem_cons_of_mem _ hother, hclassOf ▸ herror⟩

variable {r : Registry} {text : String} {s : Signature}

/-- A signature that was not kept before: all names in use mean something and it is kept, or one does not, and then
that is the fault and no signature is added. -/
theorem signature_of_read (hread : (readSignature r.interfaceOf text).result = .ok s)
    (hnew : r.signatures.find? text = none) :
    (∃ kept, (r.signature text).1 = .ok kept ∧ kept.node = s ∧
      ∀ name, s.Uses r.isAlias name → ∃ c, r.classOf name = .ok c) ∨
    ∃ name, s.Uses r.isAlias name ∧ r.classOf name = .error (.unknownName .ofClass name) ∧
      (r.signature text).1 = .error (.unknownName .ofClass name) ∧
      (r.signature text).2.1.signatures = r.signatures := by
  have hbare := bare_rememberAll r (readSignature r.interfaceOf text).mentions
  have hclassOf := classOf_rememberAll r (readSignature r.interfaceOf text).mentions
  simp only [signature, hnew, hread]
  generalize r.rememberAll (readSignature r.interfaceOf text).mentions = after at hbare hclassOf ⊢
  rw [isAlias_of_bare hbare]
  have hkept := bare_resolveAll after (s.classNames r.isAlias)
  split <;> rename_i hnames <;> rw [hnames] at hkept
  · obtain ⟨name, hname, herror⟩ := resolveAll_error (congrArg Prod.fst hnames)
    rw [hclassOf] at herror
    have huses := Signature.mem_classNames_iff.1 hname
    cases eq_unknownName (readSignature_read hread) huses herror
    have hsame : _ = r.bare.signatures := congrArg signatures (hkept.trans hbare)
    exact .inr ⟨name, huses, herror, rfl, hsame⟩
  · have hresolved := resolveAll_ok (congrArg Prod.fst hnames)
    rw [hclassOf] at hresolved
    exact .inl ⟨_, rfl, rfl, fun name huses => hresolved name (Signature.mem_classNames_iff.2 huses)⟩

/-- Reading a signature finds out about every class name that judging by it could ask for. -/
theorem signature_checks_names (hread : (readSignature r.interfaceOf text).result = .ok s)
    (hnew : r.signatures.find? text = none) :
    ((∃ kept, (r.signature text).1 = .ok kept) ↔ ∀ name, s.Uses r.isAlias name → ∃ c, r.classOf name = .ok c) ∧
    (∀ kept, (r.signature text).1 = .ok kept → kept.node = s ∧
      (s.AliasFree r.isAlias → ∀ ctx : Context, ctx.registry.classOf = (r.signature text).2.1.classOf →
        ctx.registry.isAlias = (r.signature text).2.1.isAlias →
        ∀ t, s.Holds t → ∀ v slot scene kind name,
          ((ctx.satisfies v t slot).run.run scene).1 ≠ .error (.unknownName kind name))) ∧
    (∀ name, s.Uses r.isAlias name → (∀ c, r.classOf name ≠ .ok c) →
      ∃ unknown, s.Uses r.isAlias unknown ∧ (∀ c, r.classOf unknown ≠ .ok c) ∧
        (r.signature text).1 = .error (.unknownName .ofClass unknown) ∧
        (r.signature text).2.1.signatures = r.signatures) := by
  rcases signature_of_read hread hnew with ⟨kept, hkept, hnode, hnames⟩ | ⟨unknown, huses, hunknown, hfault, hsame⟩
  · refine ⟨⟨fun _ => hnames, fun _ => ⟨kept, hkept⟩⟩, ?_, ?_⟩
    · intro kept' hkept'
      cases hkept.symm.trans hkept'
      refine ⟨hnode, fun hfree ctx hclassOf halias t ht v slot scene kind name h => ?_⟩
      rw [classOf_signature] at hclassOf
      rw [isAlias_signature] at halias
      have hplain : t.Everywhere (TypeExpr.IsPlain ctx.registry.isAlias) := halias ▸ hfree.everywhere ht
      refine TypeExpr.not_leads_of_isPlain hplain (fun name hname => ?_) (ctx.leads_of_satisfies (Prod.ext h rfl) rfl)
      rw [halias] at hname
      rw [hclassOf]
      exact hnames name (hfree.uses ht hname)
    · intro name huses hmissing
      obtain ⟨c, hc⟩ := hnames name huses
      exact absurd hc (hmissing c)
  · have hmissing : ∀ c, r.classOf unknown ≠ .ok c := by
      intro c hc
      rw [hc] at hunknown
      cases hunknown
    refine ⟨⟨?_, fun hnames => ?_⟩, ?_, fun _ _ _ => ⟨unknown, huses, hmissing, hfault, hsame⟩⟩
    · rintro ⟨kept, hkept⟩
      rw [hkept] at hfault
      cases hfault
    · obtain ⟨c, hc⟩ := hnames unknown huses
      exact absurd hc (hmissing c)
    · intro kept hkept
      rw [hkept] at hfault
      cases hfault

/-- The names in use in a signature, by its text. -/
def namesIn (r : Registry) (isAlias : String → Bool) (text : String) : Option (List String) :=
  (readSignature r.interfaceOf text).result.toOption.map (·.classNames isAlias)

theorem exists_of_namesIn {isAlias : String → Bool} {names : List String} (h : r.namesIn isAlias text = some names) :
    ∃ s, (readSignature r.interfaceOf text).result = .ok s ∧ ∀ name, s.Uses isAlias name ↔ name ∈ names := by
  unfold namesIn at h
  cases hread : (readSignature r.interfaceOf text).result with
  | error e =>
    rw [hread] at h
    cases h
  | ok s =>
    rw [hread] at h
    cases h
    exact ⟨s, rfl, fun name => Signature.mem_classNames_iff.symm⟩

theorem exists_of_toBool {ε α : Type} {x : Except ε α} (h : x.toBool = true) : ∃ a, x = .ok a := by
  cases x with
  | error e => cases h
  | ok a => exact ⟨a, rfl⟩

theorem classOf_missing : ∀ c, initial.classOf "Missing" ≠ .ok c := by
  intro c hc
  have hnone : (initial.classOf "Missing").toBool = false := by decide +kernel
  rw [hc] at hnone
  cases hnone

/-- One signature without aliases, and one with a name that means nothing, deep in its block. -/
theorem namesIn_initial :
    initial.namesIn (fun _ => false) "(Integer) -> Array[str | nil]" = some ["Integer", "Array", "str"] ∧
    (initial.signature "(Integer) -> Array[str | nil]").1.toBool = true ∧
    initial.namesIn initial.isAlias "(?Integer) { (*^(Missing) -> void) -> void } -> string" =
      some ["Integer", "Missing"] ∧
    (initial.classOf "Integer").toBool = true := by
  decide +kernel

theorem signature_checks_names_block :
    (∃ s, (readSignature initial.interfaceOf "(Integer) -> Array[str | nil]").result = .ok s ∧
      ∀ ctx : Context, ctx.registry = initial → ∀ t, s.Holds t → ∀ v slot scene kind name,
        ((ctx.satisfies v t slot).run.run scene).1 ≠ .error (.unknownName kind name)) ∧
    (initial.signature "(?Integer) { (*^(Missing) -> void) -> void } -> string").1 =
      .error (.unknownName .ofClass "Missing") := by
  obtain ⟨hplain, hreads, hblock, hclass⟩ := namesIn_initial
  constructor
  · obtain ⟨s, hread, huses⟩ := exists_of_namesIn hplain
    have hfree : s.AliasFree initial.isAlias := by
      refine Signature.aliasFree_of_uses fun name hname => ?_
      revert name
      simp only [huses]
      decide
    obtain ⟨kept, hkept⟩ := exists_of_toBool hreads
    refine ⟨s, hread, fun ctx hctx => ?_⟩
    refine ((signature_checks_names hread rfl).2.1 kept hkept).2 hfree ctx ?_ ?_
    · rw [hctx, classOf_signature]
    · rw [hctx, isAlias_signature]
  · obtain ⟨s, hread, huses⟩ := exists_of_namesIn hblock
    obtain ⟨unknown, hunknown, hfails, hfault, -⟩ :=
      (signature_checks_names hread rfl).2.2 "Missing" ((huses _).2 (by decide)) classOf_missing
    rw [huses, List.mem_cons, List.mem_singleton] at hunknown
    rcases hunknown with rfl | rfl
    · obtain ⟨c, hc⟩ := exists_of_toBool hclass
      exact absurd hc (hfails c)
    · exact hfault

/-- What stands among the arguments of an alias is not looked up. -/
theorem signature_overlooks_arguments :
    ∃ s kept t, (readSignature initial.interfaceOf "() -> string[Missing]").result = .ok s ∧
      initial.signatures.find? "() -> string[Missing]" = none ∧
      (initial.signature "() -> string[Missing]").1 = .ok kept ∧
      s.Holds t ∧ t.Names initial.isAlias "Missing" ∧ ∀ c, initial.classOf "Missing" ≠ .ok c := by
  obtain ⟨hall, hkept⟩ : initial.namesIn (fun _ => false) "() -> string[Missing]" = some ["string", "Missing"] ∧
      (initial.signature "() -> string[Missing]").1.toBool = true := by decide +kernel
  obtain ⟨s, hread, huses⟩ := exists_of_namesIn hall
  obtain ⟨t, ht, u, hshows, hnames⟩ := (huses "Missing").2 (by decide)
  have hu : u.Names initial.isAlias "Missing" := by
    cases hnames with
    | className => exact .className (by decide)
    | singleton => exact .singleton
  obtain ⟨kept, hkept⟩ := exists_of_toBool hkept
  exact ⟨s, kept, u, hread, rfl, hkept, ⟨t, ht, hshows.contains⟩, hu, classOf_missing⟩

end Registry

end Conformance
