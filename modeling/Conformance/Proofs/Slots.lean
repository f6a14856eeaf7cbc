import Mathlib
import Conformance.Overload
import Conformance.Proofs.TypeTree

/-!
# Slots and their labels

A check of a call goes through slots: arguments and keywords, those of every call of the block, what the block
returned, and what the call returned.  `SlotName` says which slot it is, and `SlotName.label` is the text that it is
known by.

Keywords have arbitrary names, so it is not plain that the texts tell slots apart; they do (`label_injective`).
As no slot occurs twice, the labels of a check are pairwise different (`labels_nodup`).
-/

namespace Conformance

/-- Which value of a call a slot holds. -/
inductive SlotName where
  | argument (index : Nat)
  | keyword (name : String)
  | blockArgument (call index : Nat)
  | blockKeyword (call : Nat) (name : String)
  | blockResult (call : Nat)
  | result
  deriving DecidableEq, Repr

namespace SlotName

/-- The text that a slot is known by. -/
def label : SlotName → String
  | argument i => s!"argument {i}"
  | keyword k => s!"keyword `{k}`"
  | blockArgument n i => s!"block argument {i}" ++ (" " ++ s!"of block call {n}")
  | blockKeyword n k => s!"keyword `{k}`" ++ (" " ++ s!"of block call {n}")
  | blockResult n => s!"block return value " ++ s!"of block call {n}"
  | result => "return value"

/-! ## Labels tell slots apart -/

theorem toList_argument (i : Nat) : (argument i).label.toList = "argument ".toList ++ Nat.toDigits 10 i := by
  change (s!"argument {i}").toList = _
  simp only [toString, String.toList_append, Nat.toList_repr]

theorem toList_keyword (k : String) : (keyword k).label.toList = "keyword `".toList ++ k.toList ++ ['`'] := by
  have hclose : "`".toList = ['`'] := by decide
  change (s!"keyword `{k}`").toList = _
  simp only [toString, String.toList_append, hclose]

/-- The end of a label that names a call of the block. -/
theorem toList_ofCall (n : Nat) :
    (" " ++ s!"of block call {n}").toList = " of block call".toList ++ [' '] ++ Nat.toDigits 10 n := by
  have hcall : " ".toList ++ "of block call ".toList = " of block call".toList ++ [' '] := by decide
  simp only [toString, String.toList_append, Nat.toList_repr]
  rw [← List.append_assoc, hcall]

theorem toList_blockArgument (n i : Nat) : (blockArgument n i).label.toList =
    "block argument ".toList ++ Nat.toDigits 10 i ++ " of block call".toList ++ [' '] ++ Nat.toDigits 10 n := by
  change (s!"block argument {i}" ++ (" " ++ s!"of block call {n}")).toList = _
  rw [String.toList_append, toList_ofCall]
  simp only [toString, String.toList_append, Nat.toList_repr, List.append_assoc]

theorem toList_blockKeyword (n : Nat) (k : String) : (blockKeyword n k).label.toList =
    "keyword `".toList ++ k.toList ++ ['`'] ++ " of block call".toList ++ [' '] ++ Nat.toDigits 10 n := by
  change ((keyword k).label ++ (" " ++ s!"of block call {n}")).toList = _
  rw [String.toList_append, toList_ofCall, toList_keyword]
  simp only [List.append_assoc]

theorem toList_blockResult (n : Nat) : (blockResult n).label.toList =
    "block return value of block call".toList ++ [' '] ++ Nat.toDigits 10 n := by
  have hcall : "block return value ".toList ++ "of block call ".toList
      = "block return value of block call".toList ++ [' '] := by decide
  change ("block return value " ++ s!"of block call {n}").toList = _
  simp only [toString, String.toList_append, Nat.toList_repr]
  rw [← List.append_assoc, hcall]

theorem toDigits_injective {m n : Nat} (h : Nat.toDigits 10 m = Nat.toDigits 10 n) : m = n := by
  simpa using congrArg (fun ds => Nat.ofDigitChars 10 ds 0) h

theorem isDigit_of_mem_toDigits {n : Nat} {c : Char} (h : c ∈ Nat.toDigits 10 n) : c.isDigit = true :=
  Nat.isDigit_of_mem_toDigits (by decide) (by decide) h

/-- A number at the end of a text, with a blank before it, can be told from the rest. -/
theorem append_toDigits_injective {xs ys : List Char} {m n : Nat}
    (h : xs ++ [' '] ++ Nat.toDigits 10 m = ys ++ [' '] ++ Nat.toDigits 10 n) : xs = ys ∧ m = n := by
  have htake (zs : List Char) (k : Nat) :
      (zs ++ [' '] ++ Nat.toDigits 10 k).reverse.takeWhile Char.isDigit = (Nat.toDigits 10 k).reverse := by
    rw [List.reverse_append, List.reverse_append, List.reverse_singleton, List.singleton_append,
      List.takeWhile_append_of_pos fun c hc => isDigit_of_mem_toDigits (List.mem_reverse.mp hc)]
    simp
  have hdigits : Nat.toDigits 10 m = Nat.toDigits 10 n := by
    have hreversed := congrArg (fun zs => zs.reverse.takeWhile Char.isDigit) h
    simp only [htake] at hreversed
    exact List.reverse_injective hreversed
  rw [hdigits] at h
  exact ⟨List.append_cancel_right (List.append_cancel_right h), toDigits_injective hdigits⟩

/-- The first character of a label, and whether its last character is a digit: enough to tell most slots apart. -/
def ends : SlotName → Char × Bool
  | argument _ => ('a', true)
  | keyword _ => ('k', false)
  | blockArgument _ _ | blockResult _ => ('b', true)
  | blockKeyword _ _ => ('k', true)
  | result => ('r', false)

theorem ends_label (s : SlotName) :
    s.label.toList.head? = some s.ends.1 ∧ s.label.toList.getLast?.map Char.isDigit = some s.ends.2 := by
  have hdigits (xs : List Char) (n : Nat) : ((xs ++ Nat.toDigits 10 n).getLast?.map Char.isDigit) = some true := by
    have hne : xs ++ Nat.toDigits 10 n ≠ [] := by simp
    rw [List.getLast?_eq_some_getLast hne, List.getLast_append_of_ne_nil _ Nat.toDigits_ne_nil, Option.map_some,
      isDigit_of_mem_toDigits (List.getLast_mem _)]
  cases s with
  | argument i =>
    rw [toList_argument]
    exact ⟨rfl, hdigits _ _⟩
  | keyword k =>
    rw [toList_keyword, List.getLast?_append]
    exact ⟨rfl, rfl⟩
  | blockArgument n i =>
    rw [toList_blockArgument]
    exact ⟨rfl, hdigits _ _⟩
  | blockKeyword n k =>
    rw [toList_blockKeyword]
    exact ⟨rfl, hdigits _ _⟩
  | blockResult n =>
    rw [toList_blockResult]
    exact ⟨rfl, hdigits _ _⟩
  | result => exact ⟨by decide, by decide⟩

theorem label_blockArgument_ne_blockResult (n i m : Nat) : (blockArgument n i).label ≠ (blockResult m).label := by
  intro h
  have h := congrArg String.toList h
  rw [toList_blockArgument, toList_blockResult] at h
  have hseventh := congrArg (·[6]?) (append_toDigits_injective h).1
  change some 'a' = some 'r' at hseventh
  exact absurd hseventh (by decide)

/-- Slots with the same label are the same. -/
theorem label_injective {s t : SlotName} (h : s.label = t.label) : s = t := by
  have hends : s.ends = t.ends := by
    have hs := ends_label s
    have ht := ends_label t
    rw [h] at hs
    exact Prod.ext (Option.some.inj (hs.1.symm.trans ht.1)) (Option.some.inj (hs.2.symm.trans ht.2))
  have hchars := congrArg String.toList h
  cases s with
  | argument i =>
    cases t with
    | argument j =>
      rw [toList_argument, toList_argument] at hchars
      rw [toDigits_injective (List.append_cancel_left hchars)]
    | _ => simp [ends] at hends
  | keyword k =>
    cases t with
    | keyword l =>
      rw [toList_keyword, toList_keyword] at hchars
      rw [String.ext (List.append_cancel_left (List.append_cancel_right hchars))]
    | _ => simp [ends] at hends
  | blockArgument n i =>
    cases t with
    | blockArgument m j =>
      rw [toList_blockArgument, toList_blockArgument] at hchars
      obtain ⟨hrest, rfl⟩ := append_toDigits_injective hchars
      rw [toDigits_injective (List.append_cancel_left (List.append_cancel_right hrest))]
    | blockResult m => exact absurd h (label_blockArgument_ne_blockResult n i m)
    | _ => simp [ends] at hends
  | blockKeyword n k =>
    cases t with
    | blockKeyword m l =>
      rw [toList_blockKeyword, toList_blockKeyword] at hchars
      obtain ⟨hrest, rfl⟩ := append_toDigits_injective hchars
      have hname := List.append_cancel_left (List.append_cancel_right (List.append_cancel_right hrest))
      rw [String.ext hname]
    | _ => simp [ends] at hends
  | blockResult n =>
    cases t with
    | blockResult m =>
      rw [toList_blockResult, toList_blockResult] at hchars
      rw [(append_toDigits_injective hchars).2]
    | blockArgument m j => exact absurd h.symm (label_blockArgument_ne_blockResult m j n)
    | _ => simp [ends] at hends
  | result =>
    cases t with
    | result => rfl
    | _ => simp [ends] at hends

end SlotName

/-! ## The slots of a check -/

/-- What is made of a list element by element, if each of them can be. -/
theorem forall₂_of_mapM_ok {ε α β : Type} {f : α → Except ε β} {as : List α} {bs : List β} (h : as.mapM f = .ok bs) :
    List.Forall₂ (fun a b => f a = .ok b) as bs := by
  induction as generalizing bs with
  | nil =>
    cases h
    exact .nil
  | cons a as ih =>
    rw [List.mapM_cons] at h
    cases hfirst : f a with
    | error e =>
      rw [hfirst] at h
      cases h
    | ok b =>
      rw [hfirst] at h
      cases hrest : as.mapM f with
      | error e =>
        rw [hrest] at h
        cases h
      | ok bs' =>
        rw [hrest] at h
        cases h
        exact .cons hfirst (ih hrest)

namespace Params

variable {τ α : Type}
  {p : Params τ} {label : String} {keywords : List (String × α)} {slots : List (Slot τ α)} {slot : Slot τ α} {args : List α}

/-- Keywords are paired in order, each by itself. -/
theorem slots_of_keywords (h : keywords.mapM p.keywordSlot = .ok slots) :
    List.Forall₂ (fun kv slot => p.keywordSlot kv = .ok slot) keywords slots :=
  forall₂_of_mapM_ok h

theorem keywordSlot_ok {kv : String × α} (h : p.keywordSlot kv = .ok slot) :
    p.keywordParam? kv.1 = some slot.param ∧ slot.label = s!"keyword `{kv.1}`" ∧ slot.value = kv.2 := by
  unfold keywordSlot at h
  split at h
  · cases h
    exact ⟨by assumption, rfl, rfl⟩
  · cases h

theorem labels_of_keywords (h : keywords.mapM p.keywordSlot = .ok slots) :
    slots.map (·.label) = keywords.map fun kv => s!"keyword `{kv.1}`" := by
  have hslots := slots_of_keywords h
  clear h
  induction hslots with
  | nil => rfl
  | cons hslot _ ih => rw [List.map_cons, List.map_cons, (keywordSlot_ok hslot).2.1, ih]

theorem exists_keyword (h : keywords.mapM p.keywordSlot = .ok slots) (hslot : slot ∈ slots) :
    ∃ kv ∈ keywords, p.keywordSlot kv = .ok slot := by
  have hslots := slots_of_keywords h
  clear h
  induction hslots with
  | nil => cases hslot
  | cons hfirst _ ih =>
    rcases List.mem_cons.1 hslot with rfl | hslot
    · exact ⟨_, List.mem_cons_self, hfirst⟩
    · obtain ⟨kv, hkv, hfound⟩ := ih hslot
      exact ⟨kv, List.mem_cons_of_mem _ hkv, hfound⟩

/-- What is paired when pairing succeeds. -/
theorem pair_ok (h : p.pair label args keywords = .ok slots) : ∃ named, keywords.mapM p.keywordSlot = .ok named ∧
      slots = ((args.zip (p.positionals args.length)).zipIdx.map fun ((v, q), i) =>
        Slot.mk s!"{label} {i}" v q) ++ named := by
  unfold pair at h
  cases hcount : p.checkCount args.length with
  | error e => rw [hcount] at h; cases h
  | ok _ =>
    cases hkeys : p.checkKeywords (keywords.map (·.1)) with
    | error e => rw [hcount, hkeys] at h; cases h
    | ok _ =>
      cases hnamed : keywords.mapM p.keywordSlot with
      | error e => rw [hcount, hkeys, hnamed] at h; cases h
      | ok named =>
        rw [hcount, hkeys, hnamed] at h
        cases h
        exact ⟨named, rfl, rfl⟩

/-- The labels of paired arguments: by position, then by the names of the keywords. -/
theorem labels_of_pair (h : p.pair label args keywords = .ok slots) : ∃ count, slots.map (·.label) =
      (List.range count).map (fun i => s!"{label} {i}") ++ keywords.map fun kv => s!"keyword `{kv.1}`" := by
  obtain ⟨named, hnamed, rfl⟩ := pair_ok h
  refine ⟨(args.zip (p.positionals args.length)).length, ?_⟩
  rw [List.map_append, labels_of_keywords hnamed, List.map_map, List.range_eq_range', ← List.zipIdx_map_snd,
    List.map_map]
  rfl

/-- What is paired is one of the arguments. -/
theorem value_of_pair (h : p.pair label args keywords = .ok slots) (hslot : slot ∈ slots) :
    slot.value ∈ args ∨ ∃ kv ∈ keywords, slot.value = kv.2 := by
  obtain ⟨named, hnamed, rfl⟩ := pair_ok h
  rcases List.mem_append.1 hslot with hslot | hslot
  · obtain ⟨⟨⟨v, q⟩, i⟩, hmem, rfl⟩ := List.mem_map.1 hslot
    exact .inl (List.of_mem_zip (List.fst_mem_of_mem_zipIdx hmem)).1
  · obtain ⟨kv, hkv, hfound⟩ := exists_keyword hnamed hslot
    exact .inr ⟨kv, hkv, (keywordSlot_ok hfound).2.2⟩

theorem mem_list_of_mem_positionals {count : Nat} {q : Param τ} (h : q ∈ p.positionals count) : q ∈ p.list := by
  simp only [positionals, List.mem_append] at h
  simp only [list, List.mem_append]
  rcases h with ((h | h) | h) | h
  · tauto
  · have := List.mem_of_mem_take h
    tauto
  · cases hrest : p.rest with
    | none =>
      rw [hrest] at h
      cases h
    | some r =>
      rw [hrest] at h
      have hr : q ∈ (some r).toList := Option.mem_toList.2 (List.eq_of_mem_replicate h ▸ rfl)
      tauto
  · tauto

theorem mem_list_of_keywordParam? {name : String} {q : Param τ} (h : p.keywordParam? name = some q) : q ∈ p.list := by
  rw [keywordParam?, Option.orElse_eq_orElse, Option.orElse_eq_or, Option.or_eq_some_iff] at h
  simp only [list, List.mem_append]
  rcases h with h | ⟨-, h⟩
  · obtain ⟨kq, hfound, rfl⟩ := Option.map_eq_some_iff.1 h
    have : kq.2 ∈ p.keywords.map (·.2) := List.mem_map_of_mem (List.mem_of_find?_eq_some hfound)
    tauto
  · have : q ∈ p.restKeywords.toList := Option.mem_toList.2 h
    tauto

/-- What an argument is paired with is one of the parameters. -/
theorem param_of_pair (h : p.pair label args keywords = .ok slots) (hslot : slot ∈ slots) : slot.param ∈ p.list := by
  obtain ⟨named, hnamed, rfl⟩ := pair_ok h
  rcases List.mem_append.1 hslot with hslot | hslot
  · obtain ⟨⟨⟨v, q⟩, i⟩, hmem, rfl⟩ := List.mem_map.1 hslot
    exact mem_list_of_mem_positionals (List.of_mem_zip (List.fst_mem_of_mem_zipIdx hmem)).2
  · obtain ⟨kv, -, hfound⟩ := exists_keyword hnamed hslot
    exact mem_list_of_keywordParam? (keywordSlot_ok hfound).1

end Params

namespace SlotName

/-- What a slot belongs to. -/
inductive Place where
  | call
  | blockCall (number : Nat)
  | outcome

/-- What the slot belongs to. -/
def place : SlotName → Place
  | argument _ | keyword _ => .call
  | blockArgument n _ | blockKeyword n _ | blockResult n => .blockCall n
  | result => .outcome

end SlotName

namespace Check

variable {cs : List Check}

/-- What a check of a signature is about. -/
inductive Origin (s : Signature) (i : Invocation) : Check → Prop
  | argument {slots : List (Conformance.Slot TypeExpr Value)} {slot : Conformance.Slot TypeExpr Value} {label : String}
      (hpair : s.params.pair "argument" i.args i.keywords = .ok slots) (hslot : slot ∈ slots) :
      Origin s i (.slot label slot.value slot.param.type)
  | blockArgument {b : Block TypeExpr} {c : BlockCall} {slots : List (Conformance.Slot TypeExpr Value)}
      {slot : Conformance.Slot TypeExpr Value} {label : String} (hb : s.block = some b) (hc : c ∈ i.blockCalls)
      (hpair : b.params.pair "block argument" c.args c.keywords = .ok slots) (hslot : slot ∈ slots) :
      Origin s i (.slot label slot.value slot.param.type)
  | blockResult {b : Block TypeExpr} {c : BlockCall} {v : Value} {label : String} (hb : s.block = some b)
      (hc : c ∈ i.blockCalls) (hv : c.outcome = .ok v) : Origin s i (.slot label v b.result)
  | result {label : String} (h : i.error? = none) : Origin s i (.slot label i.result s.result)
  | error {r : Raised} (h : i.error? = some r) : Origin s i (.raised r s.result)
  | shape {d : Diagnostic} (h : d.signature = some s.label) : Origin s i (.fails d)

section Origin

variable {s : Signature} {i : Invocation}

theorem origin_of_fails {d : Diagnostic} (hd : d.signature = some s.label) : ∀ c ∈ [Check.fails d], Origin s i c := by
  intro c hc
  cases List.mem_singleton.1 hc
  exact .shape hd

theorem origin_ofArguments : ∀ c ∈ ofArguments s.label s i, Origin s i c := by
  unfold ofArguments
  split
  · exact origin_of_fails rfl
  · rename_i slots hpair
    intro c hc
    obtain ⟨slot, hslot, rfl⟩ := List.mem_map.1 hc
    exact .argument hpair hslot

theorem origin_ofBlockCall {b : Block TypeExpr} {number : Nat} {call : BlockCall} (hb : s.block = some b)
    (hcall : call ∈ i.blockCalls) : ∀ c ∈ ofBlockCall s.label b number call, Origin s i c := by
  unfold ofBlockCall
  dsimp only
  split
  · exact origin_of_fails rfl
  · rename_i slots hpair
    intro c hc
    rcases List.mem_append.1 hc with hc | hc
    · obtain ⟨slot, hslot, rfl⟩ := List.mem_map.1 hc
      exact .blockArgument hb hcall hpair hslot
    · split at hc
      · rename_i v hv
        cases List.mem_singleton.1 hc
        exact .blockResult hb hcall hv
      · exact nomatch hc

theorem origin_ofBlock : ∀ c ∈ ofBlock s.label s i, Origin s i c := by
  unfold ofBlock
  dsimp only
  split
  · split
    · exact origin_of_fails rfl
    · exact fun c hc => nomatch hc
  · rename_i b hb
    split
    · split
      · exact origin_of_fails rfl
      · exact fun c hc => nomatch hc
    split
    · exact origin_of_fails rfl
    · intro c hc
      obtain ⟨⟨call, number⟩, hcall, hc⟩ := List.mem_flatMap.1 hc
      exact origin_ofBlockCall hb (List.fst_mem_of_mem_zipIdx hcall) c hc

theorem origin_ofOutcome : ∀ c ∈ ofOutcome s i, Origin s i c := by
  unfold ofOutcome
  intro c hc
  split at hc
  · rename_i hnone
    cases List.mem_singleton.1 hc
    exact .result hnone
  · rename_i r hr
    split at hc
    · exact nomatch hc
    · cases List.mem_singleton.1 hc
      exact .error hr

theorem origin_ofSignature : ∀ c ∈ ofSignature s i, Origin s i c := by
  intro c hc
  rcases List.mem_append.1 hc with hc | hc
  · rcases List.mem_append.1 hc with hc | hc
    · exact origin_ofArguments c hc
    · exact origin_ofBlock c hc
  · exact origin_ofOutcome c hc

end Origin

/-- The label of a check of a slot. -/
def label? : Check → Option String
  | slot label _ _ => some label
  | _ => none

/-- The labels of the slots in some checks, in order. -/
def labels (checks : List Check) : List String := checks.filterMap label?

theorem labels_append (cs ds : List Check) : labels (cs ++ ds) = labels cs ++ labels ds :=
  List.filterMap_append

theorem labels_ofSlots (suffix : String) (slots : List (Conformance.Slot TypeExpr Value)) :
    labels (ofSlots suffix slots) = slots.map fun s => s.label ++ suffix := by
  simp only [labels, ofSlots, List.filterMap_map]
  exact List.filterMap_eq_map.symm ▸ rfl

/-- The checks are of different slots, all of them with a property. -/
def Labelled (P : SlotName → Prop) (checks : List Check) : Prop :=
  ∃ names : List SlotName, labels checks = names.map (·.label) ∧ names.Nodup ∧ ∀ s ∈ names, P s

variable {P Q : SlotName → Prop}

theorem labelled_nil : Labelled P [] := ⟨[], rfl, .nil, by simp⟩

theorem labelled_fails (d : Diagnostic) : Labelled P [.fails d] := ⟨[], rfl, .nil, by simp⟩

theorem labelled_slot {s : SlotName} (v : Value) (t : TypeExpr) (hs : P s) :
    Labelled P [.slot s.label v t] :=
  ⟨[s], rfl, List.nodup_singleton s, by simpa using hs⟩

theorem Labelled.mono (hcs : Labelled P cs) (h : ∀ s, P s → Q s) : Labelled Q cs := by
  obtain ⟨names, hnames, hnodup, hP⟩ := hcs
  exact ⟨names, hnames, hnodup, fun s hs => h s (hP s hs)⟩

theorem Labelled.append {ds : List Check} (hcs : Labelled P cs) (hds : Labelled Q ds) (hdisjoint : ∀ s, P s → ¬ Q s) :
    Labelled (fun s => P s ∨ Q s) (cs ++ ds) := by
  obtain ⟨names, hnames, hnodup, hP⟩ := hcs
  obtain ⟨names', hnames', hnodup', hQ⟩ := hds
  refine ⟨names ++ names', ?_, ?_, ?_⟩
  · rw [labels_append, hnames, hnames', List.map_append]
  · refine List.nodup_append.mpr ⟨hnodup, hnodup', ?_⟩
    rintro s hs t ht rfl
    exact hdisjoint s (hP s hs) (hQ s ht)
  · intro s hs
    rcases List.mem_append.mp hs with hs | hs
    · exact .inl (hP s hs)
    · exact .inr (hQ s hs)

theorem Labelled.nodup (h : Labelled P cs) : (labels cs).Nodup := by
  obtain ⟨names, hnames, hnodup, -⟩ := h
  rw [hnames]
  exact hnodup.map fun _ _ => SlotName.label_injective

/-- Paired arguments are in different slots, if positions and keywords name different slots. -/
theorem labelled_ofSlots {p : Params TypeExpr} {label suffix : String} {args : List Value}
    {keywords : List (String × Value)} {slots : List (Conformance.Slot TypeExpr Value)}
    (hpair : p.pair label args keywords = .ok slots) (hkeys : (keywords.map (·.1)).Nodup) (position : Nat → SlotName)
    (named : String → SlotName) (hposition : ∀ i, (position i).label = s!"{label} {i}" ++ suffix ∧ P (position i))
    (hnamed : ∀ k, (named k).label = s!"keyword `{k}`" ++ suffix ∧ P (named k)) (hinj : position.Injective)
    (hinj' : named.Injective) (hne : ∀ i k, position i ≠ named k) : Labelled P (ofSlots suffix slots) := by
  obtain ⟨count, hlabels⟩ := Params.labels_of_pair hpair
  refine ⟨(List.range count).map position ++ (keywords.map (·.1)).map named, ?_, ?_, ?_⟩
  · have hsuffix : (slots.map fun s => s.label ++ suffix) = (slots.map (·.label)).map (· ++ suffix) := by
      rw [List.map_map]; rfl
    rw [labels_ofSlots, hsuffix, hlabels]
    simp only [List.map_append, List.map_map, Function.comp_def, (hposition _).1, (hnamed _).1]
  · refine List.nodup_append.mpr ⟨List.nodup_range.map hinj, hkeys.map hinj', ?_⟩
    intro s hs t ht
    obtain ⟨i, -, rfl⟩ := List.mem_map.mp hs
    obtain ⟨k, -, rfl⟩ := List.mem_map.mp ht
    exact hne i k
  · intro s hs
    rcases List.mem_append.mp hs with hs | hs
    · obtain ⟨i, -, rfl⟩ := List.mem_map.mp hs
      exact (hposition i).2
    · obtain ⟨k, -, rfl⟩ := List.mem_map.mp hs
      exact (hnamed k).2

theorem labelled_ofArguments (text : String) (s : Signature) {i : Invocation}
    (hkeys : (i.keywords.map (·.1)).Nodup) : Labelled (·.place = .call) (ofArguments text s i) := by
  unfold ofArguments
  split
  · exact labelled_fails _
  · rename_i slots hpair
    refine labelled_ofSlots hpair hkeys .argument .keyword (fun j => ⟨?_, rfl⟩) (fun k => ⟨?_, rfl⟩)
      (fun _ _ => SlotName.argument.inj) (fun _ _ => SlotName.keyword.inj) (by simp)
    · rw [String.append_empty]; rfl
    · rw [String.append_empty]; rfl

theorem labelled_ofBlockCall (text : String) (b : Block TypeExpr) (number : Nat) {c : BlockCall}
    (hkeys : (c.keywords.map (·.1)).Nodup) :
    Labelled (·.place = .blockCall number) (ofBlockCall text b number c) := by
  unfold ofBlockCall
  dsimp only
  split
  · exact labelled_fails _
  · rename_i slots hpair
    have harguments : Labelled (fun s => s.place = .blockCall number ∧ s ≠ .blockResult number)
        (ofSlots (" " ++ s!"of block call {number}") slots) :=
      labelled_ofSlots hpair hkeys (.blockArgument number) (.blockKeyword number)
        (fun _ => ⟨rfl, rfl, by simp⟩) (fun _ => ⟨rfl, rfl, by simp⟩)
        (fun _ _ h => (SlotName.blockArgument.inj h).2) (fun _ _ h => (SlotName.blockKeyword.inj h).2) (by simp)
    refine (harguments.append (?_ : Labelled (· = .blockResult number) _) fun s hs => hs.2).mono ?_
    · cases c.outcome with
      | ok v => exact labelled_slot (s := .blockResult number) v b.result rfl
      | error r => exact labelled_nil
    · rintro s (hs | rfl)
      · exact hs.1
      · rfl

theorem labelled_ofBlockCalls (text : String) (b : Block TypeExpr) {calls : List BlockCall}
    (hkeys : ∀ c ∈ calls, (c.keywords.map (·.1)).Nodup) (start : Nat) :
    Labelled (fun s => ∃ n, start ≤ n ∧ s.place = .blockCall n)
      ((calls.zipIdx start).flatMap fun (c, number) => ofBlockCall text b number c) := by
  induction calls generalizing start with
  | nil => exact labelled_nil
  | cons c calls ih =>
    rw [List.zipIdx_cons, List.flatMap_cons]
    have hfirst := labelled_ofBlockCall text b start (hkeys c List.mem_cons_self)
    have hrest := ih (fun d hd => hkeys d (List.mem_cons_of_mem _ hd)) (start + 1)
    refine (hfirst.append hrest ?_).mono ?_
    · rintro s hs ⟨n, hn, hplace⟩
      rw [hs] at hplace
      cases hplace
      omega
    · rintro s (hs | ⟨n, hn, hs⟩)
      · exact ⟨start, Nat.le_refl start, hs⟩
      · exact ⟨n, by omega, hs⟩

end Check

/-- A keyword is given at most once in a call, and in every call of its block. -/
structure Invocation.Distinct (i : Invocation) : Prop where
  keywords : (i.keywords.map (·.1)).Nodup
  blockKeywords : ∀ c ∈ i.blockCalls, (c.keywords.map (·.1)).Nodup

namespace Check

theorem labelled_ofBlock (text : String) (s : Signature) {i : Invocation} (hi : i.Distinct) :
    Labelled (fun s => ∃ n, s.place = .blockCall n) (ofBlock text s i) := by
  unfold ofBlock
  dsimp only
  split
  · split
    · exact labelled_fails _
    · exact labelled_nil
  · rename_i b _
    split
    · split
      · exact labelled_fails _
      · exact labelled_nil
    · split
      · exact labelled_fails _
      · exact (labelled_ofBlockCalls text b hi.blockKeywords 0).mono fun s ⟨n, _, hs⟩ => ⟨n, hs⟩

theorem labelled_ofOutcome (s : Signature) (i : Invocation) : Labelled (· = .result) (ofOutcome s i) := by
  unfold ofOutcome
  split
  · exact labelled_slot (s := .result) _ _ rfl
  · split
    · exact labelled_nil
    · exact ⟨[], rfl, .nil, by simp⟩

/-- The slots that a signature asks about have pairwise different labels. -/
theorem labels_ofSignature_nodup (s : Signature) {i : Invocation} (hi : i.Distinct) :
    (labels (ofSignature s i)).Nodup := by
  refine Labelled.nodup (((labelled_ofArguments s.label s hi.keywords).append
    (labelled_ofBlock s.label s hi) ?_).append (labelled_ofOutcome s i) ?_)
  · rintro x hx ⟨n, hn⟩
    rw [hx] at hn
    cases hn
  · rintro x hx rfl
    rcases hx with hx | ⟨n, hx⟩ <;> cases hx

end Check

end Conformance
