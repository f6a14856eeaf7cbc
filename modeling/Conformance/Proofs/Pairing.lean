import Mathlib
import Conformance.Proofs.Slots

/-!
# Which argument goes to which parameter

A call does not fit a parameter list for one of four reasons, which have to do with the number of positional arguments
and the names of the keywords only (`Params.Misfit`).  If there is none of them, every argument is paired with a
parameter, and `Params.Pairs` says with which: the first arguments with the required parameters, the last ones with the
trailing ones, those after the first with as many optional ones as there are arguments for, and the others with the rest
parameter.

Main statement: `pair_iff`.  Pairing fails on a misfit and on nothing else, and otherwise pairs in this way.
-/

namespace Conformance

namespace Params

variable {τ α : Type} {p : Params τ} {count : Nat} {given : List String} {keywords : List (String × α)}

/-- Why a call with so many positional arguments and with keywords of these names does not fit the parameters. -/
inductive Misfit (p : Params τ) (count : Nat) (given : List String) : Prop
  | tooFew (h : count < p.required.length + p.trailing.length)
  | tooMany (hrest : p.rest = none) (h : p.required.length + p.trailing.length + p.optional.length < count)
  | missing {kq : String × Param τ} (hkq : kq ∈ p.requiredKeywords) (h : kq.1 ∉ given)
  | unknown {name : String} (hname : name ∈ given) (h : name ∉ p.keywords.map (·.1)) (hrest : p.restKeywords = none)

/-- The number of optional parameters that get one of so many positional arguments. -/
def optionalCount (p : Params τ) (count : Nat) : Nat :=
  min p.optional.length (count - p.required.length - p.trailing.length)

/-- Every argument has its parameter: positional arguments by the regions that their number gives, keywords by their
names. -/
structure Pairs (p : Params τ) (label : String) (args : List α) (keywords : List (String × α))
    (slots : List (Slot τ α)) : Prop where
  length : slots.length = args.length + keywords.length
  values : slots.map (·.value) = args ++ keywords.map (·.2)
  labels : slots.map (·.label) =
    (List.range args.length).map (fun i => s!"{label} {i}") ++ keywords.map fun kv => s!"keyword `{kv.1}`"
  required : (slots.take p.required.length).map (·.param) = p.required
  optional : ((slots.drop p.required.length).take (p.optionalCount args.length)).map (·.param) =
    p.optional.take (p.optionalCount args.length)
  rest : ∀ slot ∈ (slots.take (args.length - p.trailing.length)).drop (p.required.length + p.optionalCount args.length),
    p.rest = some slot.param
  trailing : ((slots.take args.length).drop (args.length - p.trailing.length)).map (·.param) = p.trailing
  named : (slots.drop args.length).map (fun slot => some slot.param) =
    keywords.map fun kv => (p.keywords.lookup kv.1).or p.restKeywords

/-! ## When a call fits -/

/-- The number of positional arguments is one that the parameters can take. -/
def Fits (p : Params τ) (count : Nat) : Prop :=
  p.required.length + p.trailing.length ≤ count ∧
    (p.rest = none → count ≤ p.required.length + p.trailing.length + p.optional.length)

theorem checkCount_eq_ok_iff : p.checkCount count = .ok () ↔ p.Fits count := by
  unfold checkCount maxPositionals minPositionals Fits
  cases p.rest with
  | none =>
    simp only [Option.isSome_none, Bool.false_eq_true, if_false, true_implies]
    split
    · simp only [reduceCtorEq, false_iff]
      omega
    · split
      · simp only [reduceCtorEq, false_iff]
        omega
      · simp only [true_iff]
        omega
  | some q =>
    simp only [Option.isSome_some, if_true, reduceCtorEq, false_implies, and_true]
    split
    · simp only [reduceCtorEq, false_iff]
      omega
    · simp only [true_iff]
      omega

theorem checkKeywords_eq_ok_iff : p.checkKeywords given = .ok () ↔ ∀ kq ∈ p.requiredKeywords, kq.1 ∈ given := by
  unfold checkKeywords
  split
  · rename_i kq hfound
    have hmissing := List.find?_some hfound
    simp only [reduceCtorEq, false_iff, not_forall]
    exact ⟨kq, List.mem_of_find?_eq_some hfound, by simpa using hmissing⟩
  · rename_i hnone
    simpa using hnone

theorem keyword?_eq_lookup (p : Params τ) (name : String) : p.keyword? name = p.keywords.lookup name := by
  unfold keyword?
  induction p.keywords with
  | nil => rfl
  | cons kq kqs ih =>
    obtain ⟨key, q⟩ := kq
    rw [List.find?_cons, List.lookup_cons]
    by_cases hkey : key = name
    · simp [hkey]
    · simp only [beq_eq_false_iff_ne.2 hkey, beq_eq_false_iff_ne.2 (Ne.symm hkey)]
      exact ih

theorem keywordParam?_eq (p : Params τ) (name : String) :
    p.keywordParam? name = (p.keywords.lookup name).or p.restKeywords := by
  rw [keywordParam?, keyword?_eq_lookup, Option.orElse_eq_orElse, Option.orElse_eq_or]

/-- A keyword goes to no parameter if it is not declared and there is none for all others. -/
theorem keywordParam?_eq_none_iff {name : String} :
    p.keywordParam? name = none ↔ name ∉ p.keywords.map (·.1) ∧ p.restKeywords = none := by
  have hother (key : String) : (name != key) = true ↔ ¬ key = name := bne_iff_ne.trans ne_comm
  rw [keywordParam?_eq, Option.or_eq_none_iff, List.lookup_eq_none_iff]
  simp only [hother, List.mem_map, not_exists, not_and]

theorem keywordSlot_eq_error_iff {kv : String × α} :
    (∃ e, p.keywordSlot kv = .error e) ↔ kv.1 ∉ p.keywords.map (·.1) ∧ p.restKeywords = none := by
  rw [← keywordParam?_eq_none_iff, keywordSlot]
  cases p.keywordParam? kv.1 with
  | none => simp
  | some q => simp

/-- Keywords cannot be paired if one of them goes to no parameter. -/
theorem mapM_keywordSlot_eq_error_iff :
    (∃ e, keywords.mapM p.keywordSlot = .error e) ↔
      ∃ name ∈ keywords.map (·.1), name ∉ p.keywords.map (·.1) ∧ p.restKeywords = none := by
  induction keywords with
  | nil => simp [pure, Except.pure]
  | cons kv keywords ih =>
    rw [List.map_cons, List.exists_mem_cons_iff, ← ih, ← keywordSlot_eq_error_iff, List.mapM_cons]
    cases p.keywordSlot kv with
    | error e => simp [bind, Except.bind]
    | ok slot =>
      cases keywords.mapM p.keywordSlot with
      | error e => simp [bind, Except.bind]
      | ok slots => simp [bind, Except.bind, pure, Except.pure]

theorem misfit_iff : p.Misfit count given ↔ ¬ p.Fits count ∨ (¬ ∀ kq ∈ p.requiredKeywords, kq.1 ∈ given) ∨
    ∃ name ∈ given, name ∉ p.keywords.map (·.1) ∧ p.restKeywords = none := by
  constructor
  · rintro (hfew | ⟨hrest, hmany⟩ | ⟨hkq, hmissing⟩ | ⟨hname, hunknown, hrest⟩)
    · exact .inl fun hfits => absurd hfits.1 (by omega)
    · exact .inl fun hfits => absurd (hfits.2 hrest) (by omega)
    · exact .inr (.inl fun hall => hmissing (hall _ hkq))
    · exact .inr (.inr ⟨_, hname, hunknown, hrest⟩)
  · rintro (hcount | hmissing | ⟨name, hname, hunknown, hrest⟩)
    · by_cases hfew : count < p.required.length + p.trailing.length
      · exact .tooFew hfew
      · have hmany : ¬ (p.rest = none → count ≤ p.required.length + p.trailing.length + p.optional.length) :=
          fun hle => hcount ⟨by omega, hle⟩
        rw [Classical.not_imp] at hmany
        exact .tooMany hmany.1 (by omega)
    · push Not at hmissing
      obtain ⟨kq, hkq, hnot⟩ := hmissing
      exact .missing hkq hnot
    · exact .unknown hname hunknown hrest

/-- Pairing fails if the call does not fit, and for no other reason. -/
theorem pair_eq_error_iff {label : String} {args : List α} :
    (∃ e, p.pair label args keywords = .error e) ↔ p.Misfit args.length (keywords.map (·.1)) := by
  rw [misfit_iff, ← checkCount_eq_ok_iff, ← checkKeywords_eq_ok_iff, ← mapM_keywordSlot_eq_error_iff, pair]
  cases p.checkCount args.length with
  | error e => simp [bind, Except.bind]
  | ok _ =>
    cases p.checkKeywords (keywords.map (·.1)) with
    | error e => simp [bind, Except.bind]
    | ok _ =>
      cases keywords.mapM p.keywordSlot with
      | error e => simp [bind, Except.bind]
      | ok named => simp [bind, Except.bind, pure, Except.pure]

/-! ## Positional arguments -/

/-- The parameters for the arguments that are left when all others have theirs. -/
def restRow (p : Params τ) (count : Nat) : List (Param τ) :=
  p.rest.elim [] (List.replicate (count - p.required.length - p.trailing.length - p.optionalCount count))

theorem length_take_optionalCount (p : Params τ) (count : Nat) :
    (p.optional.take (p.optionalCount count)).length = p.optionalCount count := by
  rw [List.length_take, optionalCount]
  omega

theorem positionals_eq (p : Params τ) (count : Nat) : p.positionals count =
    p.required ++ (p.optional.take (p.optionalCount count) ++ (p.restRow count ++ p.trailing)) := by
  have hspare : count - p.minPositionals = count - p.required.length - p.trailing.length := by
    rw [minPositionals, Nat.sub_sub]
  have htake : p.optional.take (count - p.minPositionals) = p.optional.take (p.optionalCount count) := by
    rw [hspare, optionalCount, List.take_eq_take_min, Nat.min_comm]
  simp only [positionals, htake, length_take_optionalCount, restRow, List.append_assoc]
  rw [hspare]

theorem length_restRow (h : p.Fits count) :
    (p.restRow count).length = count - p.required.length - p.trailing.length - p.optionalCount count := by
  unfold restRow
  cases hrest : p.rest with
  | none =>
    have hmost := h.2 hrest
    simp only [Option.elim_none, List.length_nil, optionalCount]
    omega
  | some q => simp

theorem rest_of_mem_restRow {q : Param τ} (h : q ∈ p.restRow count) : p.rest = some q := by
  unfold restRow at h
  cases hrest : p.rest with
  | none => simp [hrest] at h
  | some r =>
    simp only [hrest, Option.elim_some, List.mem_replicate] at h
    rw [h.2]

/-- There is one parameter for each positional argument. -/
theorem length_positionals (h : p.Fits count) : (p.positionals count).length = count := by
  have hleast := h.1
  simp only [positionals_eq, List.length_append, List.length_take, length_restRow h, optionalCount]
  omega

/-- The first, optional, middle and last parameters, found by counting. -/
theorem regions (h : p.Fits count) (named : List (Param τ)) :
    (p.positionals count ++ named).take p.required.length = p.required ∧
    ((p.positionals count ++ named).drop p.required.length).take (p.optionalCount count) =
      p.optional.take (p.optionalCount count) ∧
    ((p.positionals count ++ named).take (count - p.trailing.length)).drop
      (p.required.length + p.optionalCount count) = p.restRow count ∧
    ((p.positionals count ++ named).take count).drop (count - p.trailing.length) = p.trailing := by
  have hleast := h.1
  have hcount : p.optionalCount count ≤ count - p.required.length - p.trailing.length := by
    rw [optionalCount]
    omega
  have hoptional := length_take_optionalCount p count
  have hbefore : (p.required ++ p.optional.take (p.optionalCount count)).length =
      p.required.length + p.optionalCount count := by
    rw [List.length_append, hoptional]
  have hfront : (p.required ++ p.optional.take (p.optionalCount count) ++ p.restRow count).length =
      count - p.trailing.length := by
    rw [List.length_append, hbefore, length_restRow h]
    omega
  refine ⟨?_, ?_, ?_, ?_⟩
  · rw [positionals_eq, List.append_assoc, List.take_left]
  · rw [positionals_eq, List.append_assoc, List.drop_left, List.append_assoc, List.take_left' hoptional]
  · rw [positionals_eq, ← List.append_assoc, ← List.append_assoc, List.append_assoc _ _ named, List.take_left' hfront,
      List.drop_left' hbefore]
  · rw [List.take_left' (length_positionals h), positionals_eq, ← List.append_assoc, ← List.append_assoc,
      List.drop_left' hfront]

/-! ## Slots -/

section Positional

variable (label : String) {args : List α} {row : List (Param τ)} (h : row.length = args.length)
include h

theorem map_value_positional :
    ((args.zip row).zipIdx.map fun ((v, q), i) => Slot.mk s!"{label} {i}" v q).map (·.value) = args := by
  have hvalue : (fun s : Slot τ α => s.value) ∘ (fun ((v, q), i) => Slot.mk s!"{label} {i}" v q) =
      Prod.fst ∘ (Prod.fst : (α × Param τ) × Nat → α × Param τ) := rfl
  rw [List.map_map, hvalue, ← List.map_map, List.zipIdx_map_fst, List.map_fst_zip (by omega)]

theorem map_param_positional :
    ((args.zip row).zipIdx.map fun ((v, q), i) => Slot.mk s!"{label} {i}" v q).map (·.param) = row := by
  have hparam : (fun s : Slot τ α => s.param) ∘ (fun ((v, q), i) => Slot.mk s!"{label} {i}" v q) =
      Prod.snd ∘ (Prod.fst : (α × Param τ) × Nat → α × Param τ) := rfl
  rw [List.map_map, hparam, ← List.map_map, List.zipIdx_map_fst, List.map_snd_zip (by omega)]

end Positional

/-- The parameters and values of the slots of keywords. -/
theorem params_of_keywords {slots : List (Slot τ α)} (h : keywords.mapM p.keywordSlot = .ok slots) :
    (slots.map fun slot => some slot.param) = (keywords.map fun kv => (p.keywords.lookup kv.1).or p.restKeywords) ∧
      slots.map (·.value) = keywords.map (·.2) := by
  have hslots := slots_of_keywords h
  clear h
  induction hslots with
  | nil => exact ⟨rfl, rfl⟩
  | @cons kv slot keywords slots hslot _ ih =>
    obtain ⟨hparam, -, hvalue⟩ := keywordSlot_ok hslot
    rw [keywordParam?_eq] at hparam
    simp only [List.map_cons, ih.1, ih.2, hparam, hvalue, and_self]

/-- What is paired is paired by regions. -/
theorem pairs_of_pair {label : String} {args : List α} {slots : List (Slot τ α)} (hfits : p.Fits args.length)
    (h : p.pair label args keywords = .ok slots) : p.Pairs label args keywords slots := by
  obtain ⟨count, hlabels⟩ := labels_of_pair h
  obtain ⟨named, hnamed, rfl⟩ := pair_ok h
  have hrow := length_positionals hfits
  have hvalue := map_value_positional label hrow
  have hparam := map_param_positional label hrow
  generalize ((args.zip (p.positionals args.length)).zipIdx.map fun ((v, q), i) =>
    Slot.mk s!"{label} {i}" v q) = positional at *
  obtain ⟨hparams, hvalues⟩ := params_of_keywords hnamed
  have hpositional : positional.length = args.length := by rw [← List.length_map, hvalue]
  have hlength : named.length = keywords.length := by
    simpa only [List.length_map] using congrArg List.length hvalues
  have hcount : count = args.length := by
    have := congrArg List.length hlabels
    simp only [List.length_map, List.length_append, List.length_range] at this
    omega
  obtain ⟨hrequired, hoptional, hrest, htrailing⟩ := regions hfits (named.map (·.param))
  rw [← hparam, ← List.map_append] at hrequired hoptional hrest htrailing
  simp only [← List.map_take, ← List.map_drop] at hrequired hoptional hrest htrailing
  exact {
    length := by rw [List.length_append, hpositional, hlength]
    values := by rw [List.map_append, hvalue, hvalues]
    labels := hcount ▸ hlabels
    required := hrequired
    optional := hoptional
    rest := fun slot hslot => rest_of_mem_restRow (hrest ▸ List.mem_map_of_mem hslot)
    trailing := htrailing
    named := by rw [List.drop_left' hpositional, hparams] }

/-- Pairing fails exactly on a call that does not fit, and pairs the arguments of every other call by regions. -/
theorem pair_iff (p : Params τ) (label : String) (args : List α) (keywords : List (String × α)) :
    ((∃ e, p.pair label args keywords = .error e) ↔ p.Misfit args.length (keywords.map (·.1))) ∧
      (¬ p.Misfit args.length (keywords.map (·.1)) →
        ∃ slots, p.pair label args keywords = .ok slots ∧ p.Pairs label args keywords slots) := by
  refine ⟨pair_eq_error_iff, fun hfit => ?_⟩
  have hfits : p.Fits args.length := by
    by_contra hcount
    exact hfit (misfit_iff.2 (.inl hcount))
  cases hpair : p.pair label args keywords with
  | error e => exact absurd (pair_eq_error_iff.1 ⟨e, hpair⟩) hfit
  | ok slots => exact ⟨slots, rfl, pairs_of_pair hfits hpair⟩

/-- `(int, ?str, ?bytes, *float, bool, key: str, **int)`, with the types as texts. -/
def mixed : Params String where
  required := [⟨"int", none⟩]
  optional := [⟨"str", none⟩, ⟨"bytes", none⟩]
  rest := some ⟨"float", none⟩
  trailing := [⟨"bool", none⟩]
  requiredKeywords := [("key", ⟨"str", none⟩)]
  restKeywords := some ⟨"int", none⟩

theorem pair_iff_mixed : ¬ mixed.Misfit 6 ["other", "key"] ∧
    ∃ slots, mixed.pair "argument" [10, 11, 12, 13, 14, 15] [("other", 16), ("key", 17)] = .ok slots ∧
      mixed.Pairs "argument" [10, 11, 12, 13, 14, 15] [("other", 16), ("key", 17)] slots := by
  have hfit : ¬ mixed.Misfit 6 ["other", "key"] := by
    rintro (hfew | ⟨hrest, -⟩ | ⟨hkq, hmissing⟩ | ⟨-, -, hrest⟩)
    · exact absurd hfew (by decide)
    · cases hrest
    · rcases List.mem_singleton.1 hkq with rfl
      exact hmissing (by decide)
    · cases hrest
  exact ⟨hfit, (pair_iff mixed "argument" [10, 11, 12, 13, 14, 15] [("other", 16), ("key", 17)]).2 hfit⟩

end Params

end Conformance
