import Mathlib
import Conformance.Proofs.Ledger.Conservation
import Conformance.Proofs.Ledger.Dense

/-!
# The texts that entries show

An entry can be made before the text of its position is known, by recording an attempt at the bare position.  It shows
no text then.  From then on an operation leaves the entry as it is, or it records an attempt there and so makes the
entry show its text (`Op.Counting.cases_at`).  What makes the text known may be an operation of the first kind: to
declare an overload, or to ask for its position, leaves an entry that is there.  So an entry shows the text of its
position, unless it was made before the text was known and nothing was recorded there since (`Untitled`).
-/

namespace Conformance

namespace Ledger

variable {l : Ledger} {receiver method text : String} {i : Nat} {t : Tally}
  {l' : Ledger} {key : LedgerKey} {ops : List Op}

/-- The text at a position, or the empty one. -/
def title (l : Ledger) (receiver method : String) (i : Nat) : String :=
  ((l.textsOf receiver method)[i]?.join).getD ""

/-- No text stands twice, and an entry shows the text of its position, or none. -/
structure Honest (l : Ledger) : Prop where
  nodup : ∀ receiver method, (l.textsOf receiver method).Nodup
  shown : ∀ receiver method (i : Nat) t, l.tally? ⟨receiver, method, .number i⟩ = some t →
    t.signature = "" ∨ (l.textsOf receiver method)[i]? = some (some t.signature)

theorem honest_empty : empty.Honest where
  nodup _ _ := List.nodup_nil
  shown _ _ _ _ h := by cases h

/-- The text of a position is known, and the entry there shows it. -/
def Titled (l : Ledger) (receiver method : String) (i : Nat) : Prop :=
  ∃ t, l.tally? ⟨receiver, method, .number i⟩ = some t ∧
    (l.textsOf receiver method)[i]? = some (some t.signature)

/-- The entry at a position shows what is known of its text. -/
def Shows (l : Ledger) (receiver method : String) (i : Nat) : Prop :=
  ∃ t, l.tally? ⟨receiver, method, .number i⟩ = some t ∧ t.signature = l.title receiver method i

theorem title_of_getElem? (h : (l.textsOf receiver method)[i]? = some (some text)) :
    l.title receiver method i = text := by
  rw [title, h]
  rfl

theorem getElem?_of_title (h : l.title receiver method i ≠ "") :
    (l.textsOf receiver method)[i]? = some (some (l.title receiver method i)) := by
  unfold title at h ⊢
  rcases hfound : (l.textsOf receiver method)[i]? with _ | _ | text
  · simp [hfound] at h
  · simp [hfound] at h
  · rfl

theorem Titled.shows (h : l.Titled receiver method i) : l.Shows receiver method i := by
  obtain ⟨t, ht, htext⟩ := h
  exact ⟨t, ht, (title_of_getElem? htext).symm⟩

theorem Grows.getElem? (h : l.Grows l') {text? : Option String} (htext : (l.textsOf receiver method)[i]? = some text?) :
    (l'.textsOf receiver method)[i]? = some text? := by
  obtain ⟨hlt, rfl⟩ := List.getElem?_eq_some_iff.1 htext
  exact List.prefix_iff_getElem?.1 (h.texts receiver method) i hlt

theorem Titled.mono (h : l.Titled receiver method i) (hgrows : l.Grows l')
    (hkept : ∀ t, l.tally? ⟨receiver, method, .number i⟩ = some t → l'.tally? ⟨receiver, method, .number i⟩ = some t) :
    l'.Titled receiver method i := by
  obtain ⟨t, ht, htext⟩ := h
  exact ⟨t, hkept t ht, hgrows.getElem? htext⟩

/-! ## One operation -/

theorem title_addTally (l : Ledger) (key : LedgerKey) (t : Tally) (receiver method : String) (i : Nat) :
    (l.addTally key t).title receiver method i = l.title receiver method i := by
  rw [title, addTally, textsOf_setTally, title]

/-- An attempt at a position makes the entry there show the text that is known there. -/
theorem Honest.shows_addTally (hl : l.Honest) (hkey : key.place = LedgerKey.place ⟨receiver, method, .number i⟩)
    (satisfied : Bool) : (l.addTally key (.one satisfied (l.title receiver method i))).Shows receiver method i := by
  refine ⟨_, by rw [addTally, tally?_setTally, if_pos hkey], ?_⟩
  rw [title_addTally, tally?_of_place hkey]
  cases hfound : l.tally? ⟨receiver, method, .number i⟩ with
  | none => simp [Tally.add, Tally.one]
  | some u =>
    rcases hl.shown receiver method i u hfound with hempty | htext
    · simp [Tally.add, Tally.one, hempty]
    · simp [Tally.add, Tally.one, title_of_getElem? htext]

theorem tally?_addTally_of_ne {k : LedgerKey} (h : key.place ≠ k.place) (t : Tally) :
    (l.addTally key t).tally? k = l.tally? k := by
  rw [addTally, tally?_setTally, if_neg h]

theorem recordIndex?_title (l : Ledger) (receiver method : String) {index : Index} (hindex : index.toInt = i)
    (satisfied : Bool) : l.recordIndex? receiver method index satisfied =
      some (⟨receiver, method, index⟩,
        l.addTally ⟨receiver, method, index⟩ (.one satisfied (l.title receiver method i))) := by
  unfold recordIndex? title
  dsimp only
  rw [hindex]
  split
  · rename_i hknown
    have hlt : i < (l.textsOf receiver method).length := by omega
    simp [elementAt?, List.getElem?_eq_getElem hlt]
  · rename_i hunknown
    have hle : (l.textsOf receiver method).length ≤ i := by omega
    simp [List.getElem?_eq_none hle]

theorem textsOf_declareOne (l : Ledger) (receiver method signature r m : String) :
    (l.declareOne receiver method signature).2.textsOf r m =
      (l.indexOf receiver method signature).2.textsOf r m := by
  unfold declareOne
  dsimp only
  split
  · rfl
  · rw [textsOf_setTally]

theorem tally?_declareOne_self (l : Ledger) (receiver method signature : String) :
    ∃ t, (l.declareOne receiver method signature).2.tally?
      ⟨receiver, method, .number (l.indexOf receiver method signature).1⟩ = some t := by
  unfold declareOne
  dsimp only
  split
  · rename_i hpresent
    exact Option.isSome_iff_exists.1 hpresent
  · exact ⟨{ signature }, by rw [tally?_setTally, if_pos rfl]⟩

/-- Declaring a text leaves the entries that are there. -/
theorem tally?_declareOne_of_some (h : l.tally? key = some t) (receiver method signature : String) :
    (l.declareOne receiver method signature).2.tally? key = some t := by
  have hlearned : (l.indexOf receiver method signature).2.tally? key = some t :=
    (tally?_of_entries (entries_indexOf _ _ _ _) key).trans h
  unfold declareOne
  dsimp only
  split
  · exact hlearned
  · rename_i habsent
    rw [tally?_setTally]
    split
    · rename_i hplace
      rw [tally?_of_place hplace, hlearned] at habsent
      exact absurd rfl habsent
    · exact hlearned

theorem tally?_declare_of_some (h : l.tally? key = some t) (receiver method : String) (signatures : List String) :
    (l.declare receiver method signatures).2.tally? key = some t := by
  induction signatures generalizing l with
  | nil => exact h
  | cons signature rest ih => exact ih (tally?_declareOne_of_some h receiver method signature)

/-- Declaring a text leaves an entry as it is, or makes one that shows its text. -/
theorem titled_of_declareOne (l : Ledger) (receiver method signature r m : String) (i : Nat) :
    (l.declareOne receiver method signature).2.tally? ⟨r, m, .number i⟩ = l.tally? ⟨r, m, .number i⟩ ∨
      (l.declareOne receiver method signature).2.Titled r m i := by
  have hlearned := tally?_of_entries (entries_indexOf l receiver method signature) ⟨r, m, .number i⟩
  have htext := getElem?_of_position? (position?_indexOf l receiver method signature)
  unfold declareOne
  dsimp only
  split
  · exact .inl hlearned
  · by_cases hplace : LedgerKey.place ⟨receiver, method, .number (l.indexOf receiver method signature).1⟩ =
        LedgerKey.place ⟨r, m, .number i⟩
    · obtain ⟨rfl, rfl, rfl⟩ := LedgerKey.place_number_inj.1 hplace
      refine .inr ⟨{ signature }, by rw [tally?_setTally, if_pos rfl], ?_⟩
      rw [textsOf_setTally]
      exact htext
    · exact .inl (by rw [tally?_setTally, if_neg hplace, hlearned])

theorem titled_of_declare (l : Ledger) (receiver method : String) (signatures : List String) (r m : String) (i : Nat) :
    (l.declare receiver method signatures).2.tally? ⟨r, m, .number i⟩ = l.tally? ⟨r, m, .number i⟩ ∨
      (l.declare receiver method signatures).2.Titled r m i := by
  induction signatures generalizing l with
  | nil => exact .inl rfl
  | cons signature rest ih =>
    rcases titled_of_declareOne l receiver method signature r m i with hsame | htitled
    · rw [← hsame]
      exact ih _
    · refine .inr (htitled.mono ((adds_declare _ receiver method rest).grows (by simp)) fun t ht => ?_)
      exact tally?_declare_of_some ht receiver method rest

/-- The keys that declaring gives are those of the positions of the texts, and there are entries there. -/
theorem keys_declare (l : Ledger) (receiver method : String) (signatures : List String) :
    List.Forall₂ (fun signature key => ∃ i : Nat, key = ⟨receiver, method, .number i⟩ ∧
        ((l.declare receiver method signatures).2.textsOf receiver method)[i]? = some (some signature) ∧
        ∃ t, (l.declare receiver method signatures).2.tally? ⟨receiver, method, .number i⟩ = some t)
      signatures (l.declare receiver method signatures).1 := by
  induction signatures generalizing l with
  | nil => exact .nil
  | cons signature rest ih =>
    refine .cons ?_ (ih _)
    have hgrows := (adds_declare (l.declareOne receiver method signature).2 receiver method rest).grows (by simp)
    have htext := getElem?_of_position? (position?_indexOf l receiver method signature)
    refine ⟨(l.indexOf receiver method signature).1, rfl, hgrows.getElem? ?_, ?_⟩
    · rw [textsOf_declareOne]
      exact htext
    · obtain ⟨t, ht⟩ := tally?_declareOne_self l receiver method signature
      exact ⟨t, tally?_declare_of_some ht receiver method rest⟩

theorem Honest.indexOf (hl : l.Honest) (receiver method signature : String) :
    (l.indexOf receiver method signature).2.Honest where
  nodup r m := nodup_textsOf_indexOf (hl.nodup r m) receiver method signature
  shown r m i t ht := by
    rw [tally?_of_entries (entries_indexOf ..)] at ht
    exact (hl.shown r m i t ht).imp_right (grows_indexOf l receiver method signature).getElem?

theorem Adds.nodup {ts : List Tally} (h : Adds l ts l') (hl : l.Honest) (r m : String) : (l'.textsOf r m).Nodup := by
  induction h with
  | refl => exact hl.nodup r m
  | learn _ receiver method signature ih => exact nodup_textsOf_indexOf ih receiver method signature
  | opened _ _ _ ih =>
    rw [textsOf_setTally]
    exact ih
  | add _ _ _ ih =>
    rw [addTally, textsOf_setTally]
    exact ih

/-- An attempt is recorded at the position. -/
def Op.Tries (receiver method : String) (i : Nat) (text : String) : Op → Prop
  | recordText r m s _ => r = receiver ∧ m = method ∧ s = text
  | recordIndex r m index _ => r = receiver ∧ m = method ∧ index.toInt = i
  | _ => False

/-- To record an attempt at a text is to learn the text, and to add the attempt at its position. -/
theorem recordText_snd (l : Ledger) (receiver method signature : String) (satisfied : Bool) :
    (l.recordText receiver method signature satisfied).2 =
      let learned := (l.indexOf receiver method signature).2
      let i := (l.indexOf receiver method signature).1
      learned.addTally ⟨receiver, method, .number i⟩ (.one satisfied (learned.title receiver method i)) := by
  dsimp only
  rw [title_of_getElem? (getElem?_of_position? (position?_indexOf l receiver method signature))]
  rfl

namespace Op

variable {op : Op}

theorem Counting.grows (hop : op.Counting) (l : Ledger) : l.Grows (op.apply l).2 := by
  obtain ⟨ts, hts⟩ := hop.enters l
  exact hts.adds.grows hts.fair

/-- What an operation does to the entry at a position whose text is `text`, if it is known: it leaves it, or makes it
for a text that was declared, or adds an attempt there.  In the last two cases the entry shows what is known of its
text. -/
theorem Counting.cases_at (hop : op.Counting) (hl : l.Honest)
    (htext : ∀ s, ((op.apply l).2.textsOf receiver method)[i]? = some (some s) → s = text) :
    (op.apply l).2.tally? ⟨receiver, method, .number i⟩ = l.tally? ⟨receiver, method, .number i⟩ ∧
        (((op.apply l).2.textsOf receiver method)[i]? = some (some text) → ¬ op.Tries receiver method i text) ∨
      l.tally? ⟨receiver, method, .number i⟩ = none ∧ (op.apply l).2.Shows receiver method i ∨
      op.Tries receiver method i text ∧ (op.apply l).2.Shows receiver method i := by
  cases op with
  | indexOf r m s => exact .inl ⟨tally?_of_entries (entries_indexOf ..) _, fun _ => id⟩
  | declare r m ss =>
    cases hfound : l.tally? ⟨receiver, method, .number i⟩ with
    | some t => exact .inl ⟨tally?_declare_of_some hfound r m ss, fun _ => id⟩
    | none =>
      rcases titled_of_declare l r m ss receiver method i with hsame | htitled
      · exact .inl ⟨hsame.trans hfound, fun _ => id⟩
      · exact .inr (.inl ⟨rfl, htitled.shows⟩)
  | recordText r m s satisfied =>
    have hposition := position?_indexOf l r m s
    have hlearned := hl.indexOf r m s
    simp only [Op.apply, Prod.map_snd, id, recordText_snd, addTally, textsOf_setTally] at htext ⊢
    by_cases hplace : LedgerKey.place ⟨r, m, .number (l.indexOf r m s).1⟩ =
        LedgerKey.place ⟨receiver, method, .number i⟩
    · obtain ⟨rfl, rfl, rfl⟩ := LedgerKey.place_number_inj.1 hplace
      have hs := htext s (getElem?_of_position? hposition)
      exact .inr (.inr ⟨⟨rfl, rfl, hs⟩, hlearned.shows_addTally rfl satisfied⟩)
    · refine .inl ⟨(tally?_addTally_of_ne hplace _).trans (tally?_of_entries (entries_indexOf ..) _), ?_⟩
      rintro hknown ⟨rfl, rfl, rfl⟩
      -- A text that is tried stands at one position only.
      rw [← position?_eq_some_iff_of_nodup (hlearned.nodup r m), hposition] at hknown
      exact hplace (by rw [Option.some.inj hknown])
  | recordIndex r m index satisfied =>
    obtain ⟨j, hj⟩ := Int.eq_ofNat_of_zero_le hop
    have hkey : LedgerKey.place ⟨r, m, index⟩ = LedgerKey.place ⟨r, m, .number j⟩ := by
      rw [LedgerKey.place, hj]
      rfl
    simp only [Op.apply, recordIndex?_title l r m hj satisfied]
    by_cases hplace : LedgerKey.place ⟨r, m, index⟩ = LedgerKey.place ⟨receiver, method, .number i⟩
    · obtain ⟨rfl, rfl, rfl⟩ := LedgerKey.place_number_inj.1 (hkey.symm.trans hplace)
      exact .inr (.inr ⟨⟨rfl, rfl, hj⟩, hl.shows_addTally hkey satisfied⟩)
    · refine .inl ⟨tally?_addTally_of_ne hplace _, ?_⟩
      rintro - ⟨rfl, rfl, hi⟩
      exact hplace (hkey.trans (by rw [Int.natCast_inj.1 (hj.symm.trans hi)]))
  | merge => exact hop.elim

end Op

/-! ## Histories -/

theorem Honest.apply {op : Op} (hl : l.Honest) (hop : op.Counting) : (op.apply l).2.Honest where
  nodup r m := by
    obtain ⟨ts, hts⟩ := hop.enters l
    exact hts.adds.nodup hl r m
  shown r m i t ht := by
    have hshows : (op.apply l).2.Shows r m i → t.signature = "" ∨
        ((op.apply l).2.textsOf r m)[i]? = some (some t.signature) := by
      rintro ⟨t', ht', hshown⟩
      obtain rfl : t' = t := Option.some.inj (ht'.symm.trans ht)
      by_cases hempty : t'.signature = ""
      · exact .inl hempty
      · rw [hshown] at hempty ⊢
        exact .inr (getElem?_of_title hempty)
    have htitle (s : String) (hs : ((op.apply l).2.textsOf r m)[i]? = some (some s)) :
        s = (op.apply l).2.title r m i := (title_of_getElem? hs).symm
    rcases hop.cases_at hl htitle with ⟨hsame, -⟩ | ⟨-, hnew⟩ | ⟨-, htried⟩
    · exact (hl.shown r m i t (hsame.symm.trans ht)).imp_right (hop.grows l).getElem?
    · exact hshows hnew
    · exact hshows htried

theorem Honest.after (hl : l.Honest) (hops : ∀ op ∈ ops, op.Counting) : (l.after ops).Honest := by
  induction ops generalizing l with
  | nil => exact hl
  | cons op ops ih => exact ih (hl.apply (hops op (by simp))) fun o ho => hops o (by simp [ho])

theorem grows_after (hops : ∀ op ∈ ops, op.Counting) (l : Ledger) : l.Grows (l.after ops) := by
  induction ops generalizing l with
  | nil => exact .refl l
  | cons op ops ih =>
    exact ((hops op (by simp)).grows l).trans (ih (fun o ho => hops o (by simp [ho])) _)

/-- The entry at the position was made before the position had a text, and nothing was recorded there since. -/
def Untitled (ops : List Op) (receiver method : String) (i : Nat) (text : String) : Prop :=
  ∃ before rest, ops = before ++ rest ∧
    ((empty.after before).tally? ⟨receiver, method, .number i⟩).isSome ∧
    ((empty.after before).textsOf receiver method).length ≤ i ∧
    ∀ op ∈ rest, ¬ op.Tries receiver method i text

/-- An entry at which nothing is recorded stays as it is. -/
theorem tally?_after_of_not_tries (hops : ∀ op ∈ ops, op.Counting) (hl : l.Honest)
    (htries : ∀ op ∈ ops, ¬ op.Tries receiver method i text)
    (htext : ((l.after ops).textsOf receiver method)[i]? = some (some text))
    (ht : l.tally? ⟨receiver, method, .number i⟩ = some t) :
    (l.after ops).tally? ⟨receiver, method, .number i⟩ = some t := by
  induction ops generalizing l with
  | nil => exact ht
  | cons op ops ih =>
    have hop := hops op (by simp)
    have hrest : ∀ o ∈ ops, o.Counting := fun o ho => hops o (by simp [ho])
    have hknown (s : String) (hs : ((op.apply l).2.textsOf receiver method)[i]? = some (some s)) : s = text := by
      have hlater := (grows_after hrest (op.apply l).2).getElem? hs
      exact Option.some.inj (Option.some.inj (hlater.symm.trans htext))
    refine ih hrest (hl.apply hop) (fun o ho => htries o (by simp [ho])) htext ?_
    rcases hop.cases_at hl hknown with ⟨hsame, -⟩ | ⟨hnone, -⟩ | ⟨htried, -⟩
    · exact hsame.trans ht
    · rw [hnone] at ht
      cases ht
    · exact absurd htried (htries op (by simp))

theorem Untitled.signature (hops : ∀ op ∈ ops, op.Counting)
    (ht : (empty.after ops).tally? ⟨receiver, method, .number i⟩ = some t)
    (htext : ((empty.after ops).textsOf receiver method)[i]? = some (some text))
    (h : Untitled ops receiver method i text) : t.signature = "" := by
  obtain ⟨before, rest, rfl, hmade, hunknown, htries⟩ := h
  obtain ⟨u, hu⟩ := Option.isSome_iff_exists.1 hmade
  have hbefore : (empty.after before).Honest := honest_empty.after fun op hop => hops op (by simp [hop])
  rw [after_append] at ht htext
  have hkept := tally?_after_of_not_tries (fun op hop => hops op (by simp [hop])) hbefore htries htext hu
  obtain rfl : u = t := Option.some.inj (hkept.symm.trans ht)
  rcases hbefore.shown receiver method i u hu with hempty | hknown
  · exact hempty
  · rw [List.getElem?_eq_none hunknown] at hknown
    cases hknown

/-- Going back from the end: where the text was not known yet, the entry was made before; and where it was, the
operation did not change the entry. -/
theorem untitled_of_ne (hops : ∀ op ∈ ops, op.Counting)
    (ht : (empty.after ops).tally? ⟨receiver, method, .number i⟩ = some t)
    (htext : ((empty.after ops).textsOf receiver method)[i]? = some (some text)) (hne : t.signature ≠ text) :
    Untitled ops receiver method i text := by
  induction ops using List.reverseRecOn with
  | nil => cases ht
  | append_singleton ops op ih =>
    have hop := hops op (by simp)
    have hbefore : ∀ o ∈ ops, o.Counting := fun o ho => hops o (by simp [ho])
    have hl := honest_empty.after hbefore
    rw [after_append, after_singleton] at ht htext
    have hhidden : ¬ (op.apply (empty.after ops)).2.Shows receiver method i := by
      rintro ⟨t', ht', hshown⟩
      rw [title_of_getElem? htext] at hshown
      exact hne (Option.some.inj (ht'.symm.trans ht) ▸ hshown)
    have hknown (s : String) (hs : ((op.apply (empty.after ops)).2.textsOf receiver method)[i]? = some (some s)) :
        s = text := Option.some.inj (Option.some.inj (hs.symm.trans htext))
    rcases hop.cases_at hl hknown with ⟨hsame, htries⟩ | ⟨-, hshows⟩ | ⟨-, hshows⟩
    · rw [hsame] at ht
      rcases Nat.lt_or_ge i ((empty.after ops).textsOf receiver method).length with hlt | hge
      · have helem := List.getElem?_eq_getElem hlt
        have hsome := ((hop.grows _).getElem? helem).symm.trans htext
        obtain ⟨before, rest, rfl, hmade, hunknown, hrest⟩ := ih hbefore ht (helem.trans hsome)
        refine ⟨before, rest ++ [op], by simp, hmade, hunknown, ?_⟩
        simp only [List.mem_append, List.mem_singleton]
        rintro o (ho | rfl)
        · exact hrest o ho
        · exact htries htext
      · refine ⟨ops, [op], rfl, by rw [ht]; rfl, hge, ?_⟩
        simp only [List.mem_singleton]
        rintro o rfl
        exact htries htext
    · exact absurd hshows hhidden
    · exact absurd hshows hhidden

/-- An entry shows the text of its position, unless it was made before the text was known and nothing was recorded
there since; it shows none then.  So to declare overloads makes each of them visible by its text, except where an entry
without a text was there before. -/
theorem entry_shows_text {ops : List Op} (hops : ∀ op ∈ ops, op.Counting) :
    (∀ receiver method (i : Nat) t text,
      (empty.after ops).tally? ⟨receiver, method, .number i⟩ = some t →
      ((empty.after ops).textsOf receiver method)[i]? = some (some text) →
        (t.signature = text ∨ t.signature = "") ∧
        (t.signature ≠ text ↔ text ≠ "" ∧ Untitled ops receiver method i text)) ∧
    ∀ receiver method texts,
      let declared := (empty.after ops).declare receiver method texts
      List.Forall₂ (fun text key => ∃ (i : Nat) (t : Tally), key = ⟨receiver, method, .number i⟩ ∧
          (declared.2.textsOf receiver method)[i]? = some (some text) ∧ declared.2.tally? key = some t ∧
          (t.signature = text ∨ t.signature = "" ∧ (empty.after ops).tally? key = some t))
        texts declared.1 := by
  have hl := honest_empty.after hops
  constructor
  · intro receiver method i t text ht htext
    have hshown := hl.shown receiver method i t ht
    rw [htext, Option.some_inj, Option.some_inj] at hshown
    refine ⟨hshown.symm.imp_left Eq.symm, fun hne => ⟨?_, untitled_of_ne hops ht htext hne⟩, ?_⟩
    · rintro rfl
      exact hshown.elim hne fun heq => hne heq.symm
    · rintro ⟨hne, huntitled⟩ heq
      exact hne (heq.symm.trans (huntitled.signature hops ht htext))
  · intro receiver method texts
    dsimp only
    have hop : (Op.declare receiver method texts).Counting := trivial
    have hdeclared : ((empty.after ops).declare receiver method texts).2.Honest := hl.apply hop
    refine (keys_declare (empty.after ops) receiver method texts).imp ?_
    rintro text key ⟨i, rfl, htext, t, ht⟩
    refine ⟨i, t, rfl, htext, ht, ?_⟩
    have hshown := hdeclared.shown receiver method i t ht
    rw [htext, Option.some_inj, Option.some_inj] at hshown
    rcases titled_of_declare (empty.after ops) receiver method texts receiver method i with hsame | ⟨u, hu, htitle⟩
    · exact hshown.symm.imp Eq.symm fun hempty => ⟨hempty, hsame.symm.trans ht⟩
    · rw [htext, Option.some_inj, Option.some_inj] at htitle
      exact .inl (Option.some.inj (hu.symm.trans ht) ▸ htitle.symm)

/-- An attempt at a bare position, and its text after it. -/
def late : List Op := [.recordIndex "R" "m" (.number 0) true, .declare "R" "m" ["x"]]

/-- The entry shows no text although its text was declared, and shows it after one more attempt. -/
theorem entry_shows_text_late :
    ((empty.after late).tally? ⟨"R", "m", .number 0⟩ = some ⟨1, 1, ""⟩ ∧ Untitled late "R" "m" 0 "x") ∧
      ((empty.after (late ++ [.recordIndex "R" "m" (.number 0) false])).tally? ⟨"R", "m", .number 0⟩ =
          some ⟨2, 1, "x"⟩ ∧
        ¬ Untitled (late ++ [.recordIndex "R" "m" (.number 0) false]) "R" "m" 0 "x") := by
  have hearly : (empty.after late).tally? ⟨"R", "m", .number 0⟩ = some ⟨1, 1, ""⟩ := by decide
  have hagain : (empty.after (late ++ [.recordIndex "R" "m" (.number 0) false])).tally? ⟨"R", "m", .number 0⟩ =
      some ⟨2, 1, "x"⟩ := by decide
  have hlate : ∀ op ∈ late, op.Counting := by decide
  have hlater : ∀ op ∈ late ++ [.recordIndex "R" "m" (.number 0) false], op.Counting := by decide
  obtain ⟨-, hiff⟩ := (entry_shows_text hlate).1 "R" "m" 0 _ "x" hearly (by decide)
  obtain ⟨-, hiff'⟩ := (entry_shows_text hlater).1 "R" "m" 0 _ "x" hagain (by decide)
  exact ⟨⟨hearly, (hiff.1 (by decide)).2⟩, hagain, fun h => hiff'.2 ⟨by decide, h⟩ rfl⟩

end Ledger

end Conformance
