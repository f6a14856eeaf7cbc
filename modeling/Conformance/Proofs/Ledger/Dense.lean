import Conformance.Proofs.Ledger.Entries

/-!
# Ledgers by text

As long as overloads are given by their texts, the two tables of a ledger agree: the texts of a method have the
positions from the first on without a gap, each text has one position, and each position has one entry, which
carries its text.  That is `Dense`.  Then a ledger can be read by text (`tallyOf?`), and every operation changes
the tally of one text only (`tallyOf?_declareOne`, `tallyOf?_recordText`, `tallyOf?_mergeEntry`).

All three operations look a text up and put a tally at its position (`put`).
-/

namespace Conformance

namespace Ledger

variable {l : Ledger} {receiver method signature : String} {key : LedgerKey} {t : Tally} {e : LedgerKey × Tally}

/-- The texts of a method have the positions from the first on, each one, and each of them has an entry with that
text, and there are no other entries. -/
structure Dense (l : Ledger) : Prop where
  distinct : l.Distinct
  known : ∀ receiver method, none ∉ l.textsOf receiver method
  nodup : ∀ receiver method, (l.textsOf receiver method).Nodup
  listed : ∀ e ∈ l.entries, ∃ i : Nat, e.1.index = .number i ∧
    (l.textsOf e.1.receiver e.1.method)[i]? = some (some e.2.signature)
  entered : ∀ receiver method (i : Nat) text, (l.textsOf receiver method)[i]? = some (some text) →
    ∃ t, l.tally? ⟨receiver, method, .number i⟩ = some t

/-- The tally of a text. -/
def tallyOf? (l : Ledger) (receiver method signature : String) : Option Tally :=
  (l.position? receiver method signature).bind fun i => l.tally? ⟨receiver, method, .number i⟩

theorem dense_empty : empty.Dense where
  distinct := distinct_empty
  known _ _ h := nomatch h
  nodup _ _ := List.nodup_nil
  listed _ h := nomatch h
  entered _ _ _ _ h := nomatch h

/-- Where no text stands twice, a text is found wherever it stands. -/
theorem position?_eq_some_iff_of_nodup (hnodup : (l.textsOf receiver method).Nodup) {i : Nat} {text : String} :
    l.position? receiver method text = some i ↔ (l.textsOf receiver method)[i]? = some (some text) := by
  constructor
  · exact getElem?_of_position?
  · intro hi
    obtain ⟨hlt, helem⟩ := List.getElem?_eq_some_iff.1 hi
    rw [position?, List.findIdx?_eq_some_iff_getElem]
    refine ⟨hlt, by simp [helem], fun j hj => ?_⟩
    have hne : (l.textsOf receiver method)[j] ≠ (l.textsOf receiver method)[i] := by
      intro heq
      have hji := (List.Nodup.getElem_inj_iff hnodup).1 heq
      omega
    rw [helem] at hne
    simpa using hne

namespace Dense

variable {i : Nat} {text : String}

/-- An entry that is found stands under the key it was looked for with, and carries the text of its position. -/
theorem mem_of_tally? (hl : l.Dense) (ht : l.tally? ⟨receiver, method, .number i⟩ = some t) :
    (⟨receiver, method, .number i⟩, t) ∈ l.entries ∧
      (l.textsOf receiver method)[i]? = some (some t.signature) := by
  obtain ⟨⟨r, m, index⟩, hk, hplace⟩ := Ledger.mem_of_tally? ht
  obtain ⟨j, hj, htext⟩ := hl.listed _ hk
  dsimp only at hj htext
  subst hj
  obtain ⟨rfl, rfl, rfl⟩ := LedgerKey.place_number_inj.1 hplace
  exact ⟨hk, htext⟩

theorem position?_eq_some_iff (hl : l.Dense) :
    l.position? receiver method text = some i ↔ (l.textsOf receiver method)[i]? = some (some text) :=
  position?_eq_some_iff_of_nodup (hl.nodup receiver method)

theorem position?_eq_none_iff : l.position? receiver method text = none ↔
    some text ∉ l.textsOf receiver method := by
  rw [position?, List.findIdx?_eq_none_iff]
  constructor
  · intro hall hmem
    simpa using hall _ hmem
  · intro habsent x hx
    have hne : x ≠ some text := fun heq => habsent (heq ▸ hx)
    simpa using hne

end Dense

/-- A text that is looked up is written down once. -/
theorem nodup_textsOf_indexOf {r m : String} (hnodup : (l.textsOf r m).Nodup) (receiver method signature : String) :
    ((l.indexOf receiver method signature).2.textsOf r m).Nodup := by
  rw [textsOf_indexOf]
  split
  · rename_i hnew
    obtain ⟨rfl, rfl, hnone⟩ := hnew
    rw [Dense.position?_eq_none_iff] at hnone
    exact hnodup.append (List.nodup_singleton _) (by simpa using hnone)
  · exact hnodup

theorem tallyOf?_of_unknown (h : l.position? receiver method signature = none) :
    l.tallyOf? receiver method signature = none := by
  rw [tallyOf?, h]
  rfl

/-! ## Putting a tally at the position of a text -/

/-- The ledger with a tally at the position of a text. -/
def put (l : Ledger) (receiver method signature : String) (t : Tally) : Ledger :=
  (l.indexOf receiver method signature).2.setTally
    ⟨receiver, method, .number (l.indexOf receiver method signature).1⟩ t

theorem textsOf_put (l : Ledger) (receiver method signature : String) (t : Tally) (r m : String) :
    (l.put receiver method signature t).textsOf r m =
      if receiver = r ∧ method = m ∧ l.position? receiver method signature = none then
        l.textsOf r m ++ [some signature]
      else l.textsOf r m := by
  rw [put, textsOf_setTally, textsOf_indexOf]

theorem position?_put (l : Ledger) (receiver method signature : String) (t : Tally) :
    (l.put receiver method signature t).position? receiver method signature =
      some (l.indexOf receiver method signature).1 := by
  rw [← position?_indexOf]
  unfold position?
  rw [put, textsOf_setTally]

/-- The other texts stay where they are. -/
theorem position?_indexOf_of_ne (l : Ledger) {r m s : String} (hne : ¬ (receiver = r ∧ method = m ∧ signature = s)) :
    (l.indexOf receiver method signature).2.position? r m s = l.position? r m s := by
  unfold position?
  rw [textsOf_indexOf]
  split
  · rename_i hnew
    have hs : signature ≠ s := fun heq => hne ⟨hnew.1, hnew.2.1, heq⟩
    rw [List.findIdx?_append]
    simp [hs]
  · rfl

theorem tallyOf?_indexOf_of_ne (l : Ledger) {r m s : String} (hne : ¬ (receiver = r ∧ method = m ∧ signature = s)) :
    (l.indexOf receiver method signature).2.tallyOf? r m s = l.tallyOf? r m s := by
  rw [tallyOf?, position?_indexOf_of_ne l hne, tallyOf?]
  simp only [tally?_of_entries (entries_indexOf _ _ _ _)]

theorem tally?_put (l : Ledger) (receiver method signature : String) (t : Tally) (k : LedgerKey) :
    (l.put receiver method signature t).tally? k =
      if LedgerKey.place ⟨receiver, method, .number (l.indexOf receiver method signature).1⟩ = k.place then some t
      else l.tally? k := by
  rw [put, tally?_setTally, tally?_of_entries (entries_indexOf _ _ _ _)]

/-- A tally set at the position of a text is the tally of that text, and of no other. -/
theorem tallyOf?_setTally {i : Nat} (hi : l.position? receiver method signature = some i) (t : Tally) (r m s : String) :
    (l.setTally ⟨receiver, method, .number i⟩ t).tallyOf? r m s =
      if receiver = r ∧ method = m ∧ signature = s then some t else l.tallyOf? r m s := by
  have hposition : (l.setTally ⟨receiver, method, .number i⟩ t).position? r m s = l.position? r m s := by
    unfold position?
    rw [textsOf_setTally]
  rw [tallyOf?, hposition]
  by_cases hit : receiver = r ∧ method = m ∧ signature = s
  · obtain ⟨rfl, rfl, rfl⟩ := hit
    rw [hi, if_pos ⟨rfl, rfl, rfl⟩, Option.bind_some, tally?_setTally, if_pos rfl]
  · rw [if_neg hit, tallyOf?]
    cases hs : l.position? r m s with
    | none => rfl
    | some j =>
      -- two texts never have the same position
      have hplace : LedgerKey.place ⟨receiver, method, .number i⟩ ≠ LedgerKey.place ⟨r, m, .number j⟩ := by
        rw [Ne, LedgerKey.place_number_inj]
        rintro ⟨rfl, rfl, rfl⟩
        have hother := getElem?_of_position? hs
        rw [getElem?_of_position? hi] at hother
        exact hit ⟨rfl, rfl, by simpa using hother⟩
      rw [Option.bind_some, Option.bind_some, tally?_setTally, if_neg hplace]

/-- Putting a tally at a text changes the tally of that text, and no other. -/
theorem tallyOf?_put (l : Ledger) (receiver method signature : String) (t : Tally) (r m s : String) :
    (l.put receiver method signature t).tallyOf? r m s =
      if receiver = r ∧ method = m ∧ signature = s then some t else l.tallyOf? r m s := by
  rw [put, tallyOf?_setTally (position?_indexOf l receiver method signature)]
  by_cases hit : receiver = r ∧ method = m ∧ signature = s
  · rw [if_pos hit, if_pos hit]
  · rw [if_neg hit, if_neg hit, tallyOf?_indexOf_of_ne l hit]

/-- An entry after a tally was set is an old one, or it has that tally, under the key given or under an old one. -/
theorem mem_setTally (he : e ∈ (l.setTally key t).entries) :
    e ∈ l.entries ∨ e.2 = t ∧ (e.1 = key ∨ ∃ u, (e.1, u) ∈ l.entries ∧ e.1.place = key.place) := by
  rw [entries_setTally, upsert] at he
  split at he
  · obtain ⟨f, hf, rfl⟩ := List.mem_map.1 he
    split
    · rename_i hsame
      exact .inr ⟨rfl, .inr ⟨f.2, hf, LedgerKey.same_iff.1 hsame⟩⟩
    · exact .inl hf
  · rcases List.mem_append.1 he with he | he
    · exact .inl he
    · rw [List.mem_singleton.1 he]
      exact .inr ⟨rfl, .inl rfl⟩

theorem Dense.put (hl : l.Dense) (ht : t.signature = signature) : (l.put receiver method signature t).Dense := by
  have hposition := getElem?_of_position? (position?_put l receiver method signature t)
  have hprefix (r m : String) : l.textsOf r m <+: (l.put receiver method signature t).textsOf r m := by
    rw [Ledger.put, textsOf_setTally]
    exact textsOf_indexOf_prefix l receiver method signature r m
  constructor
  · exact (hl.distinct.indexOf receiver method signature).setTally _ _
  · intro r m
    rw [textsOf_put]
    split
    · simpa using hl.known r m
    · exact hl.known r m
  · intro r m
    rw [Ledger.put, textsOf_setTally]
    exact nodup_textsOf_indexOf (hl.nodup r m) receiver method signature
  · rintro ⟨⟨r, m, index⟩, u⟩ he
    rw [Ledger.put] at he
    rcases mem_setTally he with hold | ⟨rfl, hkey | ⟨v, hold, hplace⟩⟩
    · rw [entries_indexOf] at hold
      obtain ⟨i, hi, htext⟩ := hl.listed _ hold
      obtain ⟨more, hmore⟩ := hprefix r m
      have hlt := (List.getElem?_eq_some_iff.1 htext).1
      exact ⟨i, hi, by rw [← hmore, List.getElem?_append_left hlt]; exact htext⟩
    · cases hkey
      exact ⟨_, rfl, ht ▸ hposition⟩
    · rw [entries_indexOf] at hold
      obtain ⟨i, hi, -⟩ := hl.listed _ hold
      dsimp only at hi
      subst hi
      obtain ⟨rfl, rfl, rfl⟩ := LedgerKey.place_number_inj.1 hplace
      exact ⟨_, rfl, ht ▸ hposition⟩
  · intro r m i text htext
    rw [tally?_put]
    split
    · exact ⟨t, rfl⟩
    · rename_i hplace
      apply hl.entered r m i text
      rw [textsOf_put] at htext
      split at htext
      · rename_i hnew
        obtain ⟨rfl, rfl, hnone⟩ := hnew
        -- the new text is the one that the tally was put at
        rw [List.getElem?_append] at htext
        split at htext
        · exact htext
        · rename_i hlast
          have hi : i = (l.textsOf receiver method).length := by
            by_contra hne
            rw [List.getElem?_eq_none (by simp; omega)] at htext
            cases htext
          rw [indexOf_of_unknown hnone, hi] at hplace
          exact absurd rfl hplace
      · exact htext

/-! ## Operations by text -/

/-- The tally of a text stands at the position that the text has, or would be given. -/
theorem Dense.tally?_indexOf (hl : l.Dense) (receiver method signature : String) :
    l.tally? ⟨receiver, method, .number (l.indexOf receiver method signature).1⟩ =
      l.tallyOf? receiver method signature := by
  cases h : l.position? receiver method signature with
  | some i =>
    rw [indexOf_of_position? h, tallyOf?, h]
    rfl
  | none =>
    rw [tallyOf?_of_unknown h, indexOf_of_unknown h]
    by_contra hsome
    obtain ⟨t, ht⟩ := Option.ne_none_iff_exists'.1 hsome
    have htext := (hl.mem_of_tally? ht).2
    simp at htext

theorem Dense.signature_tallyOf? (hl : l.Dense) (ht : l.tallyOf? receiver method signature = some t) :
    t.signature = signature := by
  obtain ⟨i, hi, ht⟩ := Option.bind_eq_some_iff.1 ht
  have htext := (hl.mem_of_tally? ht).2
  rw [getElem?_of_position? hi] at htext
  simpa using htext.symm

/-- A text is known exactly when it has a tally. -/
theorem Dense.tallyOf?_eq_none_iff (hl : l.Dense) :
    l.tallyOf? receiver method signature = none ↔ l.position? receiver method signature = none := by
  constructor
  · intro hnone
    cases h : l.position? receiver method signature with
    | none => rfl
    | some i =>
      obtain ⟨t, ht⟩ := hl.entered receiver method i signature (getElem?_of_position? h)
      rw [tallyOf?, h, Option.bind_some, ht] at hnone
      cases hnone
  · exact tallyOf?_of_unknown

/-- The entries are those of the texts that are known. -/
theorem Dense.mem_entries_iff (hl : l.Dense) :
    e ∈ l.entries ↔ ∃ receiver method text i, l.position? receiver method text = some i ∧
      l.tallyOf? receiver method text = some e.2 ∧ e.1 = ⟨receiver, method, .number i⟩ := by
  constructor
  · intro he
    obtain ⟨i, hi, htext⟩ := hl.listed e he
    have hposition := hl.position?_eq_some_iff.2 htext
    have hkey : e.1 = ⟨e.1.receiver, e.1.method, .number i⟩ := by rw [← hi]
    refine ⟨_, _, _, i, hposition, ?_, hkey⟩
    rw [tallyOf?, hposition]
    exact hl.distinct.tally?_of_mem he (congrArg LedgerKey.place hkey)
  · rintro ⟨r, m, text, i, hposition, ht, hkey⟩
    rw [tallyOf?, hposition] at ht
    have hmem := (hl.mem_of_tally? ht).1
    rw [← hkey] at hmem
    exact hmem

/-- The ledger with a tally added to that of its text. -/
def enter (l : Ledger) (receiver method : String) (t : Tally) : Ledger :=
  l.put receiver method t.signature
    (((l.tallyOf? receiver method t.signature).getD { signature := t.signature }).add t)

theorem Dense.enter (hl : l.Dense) (receiver method : String) (t : Tally) : (l.enter receiver method t).Dense := by
  apply hl.put
  cases h : l.tallyOf? receiver method t.signature with
  | none => simp [Tally.add]
  | some u => simp [Tally.add, hl.signature_tallyOf? h]

theorem Dense.addTally_indexOf (hl : l.Dense) (receiver method : String) (t : Tally) :
    (l.indexOf receiver method t.signature).2.addTally
        ⟨receiver, method, .number (l.indexOf receiver method t.signature).1⟩ t = l.enter receiver method t := by
  rw [addTally, tally?_of_entries (entries_indexOf _ _ _ _), hl.tally?_indexOf]
  rfl

theorem Dense.declareOne_eq (hl : l.Dense) (receiver method signature : String) :
    (l.declareOne receiver method signature).2 =
      if l.tallyOf? receiver method signature = none then l.put receiver method signature { signature } else l := by
  unfold declareOne
  dsimp only
  rw [tally?_of_entries (entries_indexOf _ _ _ _), hl.tally?_indexOf]
  cases h : l.position? receiver method signature with
  | none =>
    rw [tallyOf?_of_unknown h]
    rfl
  | some i =>
    have hsome : l.tallyOf? receiver method signature ≠ none := by simp [hl.tallyOf?_eq_none_iff, h]
    rw [if_neg hsome, if_pos (Option.isSome_iff_ne_none.2 hsome), indexOf_of_position? h]

theorem Dense.recordText_eq (hl : l.Dense) (receiver method signature : String) (satisfied : Bool) :
    (l.recordText receiver method signature satisfied).2 = l.enter receiver method (.one satisfied signature) :=
  hl.addTally_indexOf receiver method (.one satisfied signature)

theorem Dense.mergeEntry_eq (hl : l.Dense) (he : e.2.signature ≠ "") :
    l.mergeEntry e = l.enter e.1.receiver e.1.method e.2 := by
  unfold mergeEntry
  rw [if_neg (by simpa using he)]
  exact hl.addTally_indexOf e.1.receiver e.1.method e.2

end Ledger

end Conformance
