import Mathlib
import Conformance.Ledger

/-!
# Texts and entries of a ledger

A ledger is two tables: the texts of each method by position, and a tally under each key.  Here is what each
operation does to either of them: the one text or tally that it changes, and that all others stay
(`textsOf_setTexts`, `tally?_setTally`).  Keys are compared by their `place`, and ordered by it.

`Distinct` says that no two entries have the same place.  Every operation keeps it.  Under it the order in which
the entries were made does not matter for what is read off a ledger (`tally?_eq_of_perm`, `sorted_eq_of_perm`,
`totals_eq_of_perm`), and adding a tally adds to the sums just what it holds (`total_addTally`).
-/

namespace Conformance

namespace LedgerKey

/-- What a key stands for, in the order of keys. -/
def place (k : LedgerKey) : String ×ₗ String ×ₗ Int :=
  toLex (k.receiver, toLex (k.method, k.index.toInt))

theorem same_iff {a b : LedgerKey} : a.same b = true ↔ a.place = b.place := by
  simp [same, place, and_assoc]

theorem le_iff {a b : LedgerKey} : a.le b = true ↔ a.place ≤ b.place := by
  simp [le, place, Prod.Lex.toLex_le_toLex]

theorem place_number_inj {r m r' m' : String} {i j : Nat} :
    place ⟨r, m, .number i⟩ = place ⟨r', m', .number j⟩ ↔ r = r' ∧ m = m' ∧ i = j := by
  simp [place, Index.toInt]

end LedgerKey

namespace Ledger

/-! ## Tables that keep their order -/

/-- A list with what a test picks out changed, or with something new at its end where the test picks out nothing. -/
def upsert {α : Type} (isIt : α → Bool) (change : α → α) (new : α) (xs : List α) : List α :=
  if xs.any isIt then xs.map fun x => if isIt x then change x else x else xs ++ [new]

section Upsert

variable {α : Type} {isIt other : α → Bool} {change : α → α} {new : α} {xs : List α}

theorem find?_upsert_self (hchange : ∀ x, isIt (change x) = isIt x) (hnew : isIt new = true) :
    (upsert isIt change new xs).find? isIt = some ((xs.find? isIt).elim new change) := by
  unfold upsert
  cases hfound : xs.find? isIt with
  | none =>
    have habsent : xs.any isIt = false := by simpa [List.find?_eq_none] using hfound
    simp [habsent, List.find?_append, hfound, hnew]
  | some x =>
    have hx : isIt x = true := List.find?_some hfound
    have hpresent : xs.any isIt = true := List.any_eq_true.2 ⟨x, List.mem_of_find?_eq_some hfound, hx⟩
    have hcomp : (isIt ∘ fun x => if isIt x = true then change x else x) = isIt := by
      funext y
      dsimp only [Function.comp]
      split
      · exact hchange y
      · rfl
    rw [if_pos hpresent, List.find?_map, hcomp, hfound]
    simp [hx]

theorem find?_upsert_of_disjoint (hchange : ∀ x, other (change x) = other x)
    (hdisjoint : ∀ x, other x = true → isIt x = false) (hnew : other new = false) :
    (upsert isIt change new xs).find? other = xs.find? other := by
  unfold upsert
  split
  · have hcomp : (other ∘ fun x => if isIt x = true then change x else x) = other := by
      funext y
      dsimp only [Function.comp]
      split
      · exact hchange y
      · rfl
    rw [List.find?_map, hcomp]
    cases hfound : xs.find? other with
    | none => rfl
    | some x => simp [hdisjoint x (List.find?_some hfound)]
  · simp [List.find?_append, hnew]

end Upsert

variable {l l' : Ledger} {receiver method signature : String} {key : LedgerKey} {t : Tally}

/-! ## Texts -/

/-- The position of a text among those of a method, if it is known. -/
def position? (l : Ledger) (receiver method signature : String) : Option Nat :=
  (l.textsOf receiver method).findIdx? (· == some signature)

@[simp]
theorem entries_setTexts (l : Ledger) (receiver method : String) (texts : List (Option String)) :
    (l.setTexts receiver method texts).entries = l.entries := by
  unfold setTexts
  dsimp only
  split <;> rfl

theorem textsOf_setTexts (l : Ledger) (receiver method : String) (texts : List (Option String)) (r m : String) :
    (l.setTexts receiver method texts).textsOf r m =
      if receiver = r ∧ method = m then texts else l.textsOf r m := by
  have hmethods : (l.setTexts receiver method texts).methods =
      upsert (fun k => k.receiver == receiver && k.method == method) (fun k => { k with texts })
        ⟨receiver, method, texts⟩ l.methods := by
    unfold setTexts upsert
    dsimp only
    split <;> rfl
  rw [textsOf, hmethods]
  by_cases hit : receiver = r ∧ method = m
  · obtain ⟨rfl, rfl⟩ := hit
    rw [find?_upsert_self ?_ ?_]
    · cases l.methods.find? fun k => k.receiver == receiver && k.method == method <;> simp
    · exact fun _ => rfl
    · simp
  · rw [find?_upsert_of_disjoint ?_ ?_ ?_, if_neg hit, textsOf]
    · exact fun _ => rfl
    · intro k hk
      simp only [Bool.and_eq_true, beq_iff_eq] at hk
      rw [← Bool.not_eq_true, Bool.and_eq_true, beq_iff_eq, beq_iff_eq, hk.1, hk.2]
      exact fun hsame => hit ⟨hsame.1.symm, hsame.2.symm⟩
    · simpa using hit

theorem indexOf_of_position? {i : Nat} (h : l.position? receiver method signature = some i) :
    l.indexOf receiver method signature = (i, l) := by
  unfold indexOf
  rw [position?] at h
  simp [h]

theorem indexOf_of_unknown (h : l.position? receiver method signature = none) :
    l.indexOf receiver method signature = ((l.textsOf receiver method).length,
      l.setTexts receiver method (l.textsOf receiver method ++ [some signature])) := by
  unfold indexOf
  rw [position?] at h
  simp [h]

@[simp]
theorem entries_indexOf (l : Ledger) (receiver method signature : String) :
    (l.indexOf receiver method signature).2.entries = l.entries := by
  cases h : l.position? receiver method signature with
  | some i => rw [indexOf_of_position? h]
  | none => rw [indexOf_of_unknown h, entries_setTexts]

/-- The texts of all methods after one was looked up: it stands where it stood, or last. -/
theorem textsOf_indexOf (l : Ledger) (receiver method signature r m : String) :
    (l.indexOf receiver method signature).2.textsOf r m =
      if receiver = r ∧ method = m ∧ l.position? receiver method signature = none then
        l.textsOf r m ++ [some signature]
      else l.textsOf r m := by
  cases h : l.position? receiver method signature with
  | some i => simp [indexOf_of_position? h]
  | none =>
    rw [indexOf_of_unknown h, textsOf_setTexts]
    by_cases hit : receiver = r ∧ method = m
    · obtain ⟨rfl, rfl⟩ := hit
      simp
    · rw [if_neg hit, if_neg (fun hall => hit ⟨hall.1, hall.2.1⟩)]

theorem textsOf_indexOf_prefix (l : Ledger) (receiver method signature r m : String) :
    l.textsOf r m <+: (l.indexOf receiver method signature).2.textsOf r m := by
  rw [textsOf_indexOf]
  split
  · exact List.prefix_append _ _
  · exact List.prefix_refl _

theorem getElem?_of_position? {i : Nat} (h : l.position? receiver method signature = some i) :
    (l.textsOf receiver method)[i]? = some (some signature) := by
  obtain ⟨hi, hp, -⟩ := List.findIdx?_eq_some_iff_getElem.1 h
  rw [List.getElem?_eq_getElem hi]
  simpa using hp

/-- The position given for a text is the one it has from then on. -/
theorem position?_indexOf (l : Ledger) (receiver method signature : String) :
    (l.indexOf receiver method signature).2.position? receiver method signature =
      some (l.indexOf receiver method signature).1 := by
  cases h : l.position? receiver method signature with
  | some i => rw [indexOf_of_position? h, h]
  | none =>
    rw [indexOf_of_unknown h, position?, textsOf_setTexts, if_pos ⟨rfl, rfl⟩, List.findIdx?_append]
    rw [position?] at h
    simp [h]

/-! ## Entries -/

/-- The places of the entries in the order they were made. -/
def places (l : Ledger) : List (String ×ₗ String ×ₗ Int) := l.entries.map (·.1.place)

/-- No two entries have the same place. -/
def Distinct (l : Ledger) : Prop := l.places.Nodup

theorem distinct_empty : empty.Distinct := List.nodup_nil

theorem distinct_of_entries (h : l'.entries = l.entries) (hl : l.Distinct) : l'.Distinct := by
  rw [Distinct, places, h]
  exact hl

theorem tally?_of_entries (h : l'.entries = l.entries) (key : LedgerKey) : l'.tally? key = l.tally? key := by
  rw [tally?, tally?, h]

theorem tally?_of_place {k : LedgerKey} (h : key.place = k.place) : l.tally? key = l.tally? k := by
  rw [tally?, tally?]
  congr 2
  funext e
  rw [Bool.eq_iff_iff, LedgerKey.same_iff, LedgerKey.same_iff, h]

theorem mem_of_tally? (h : l.tally? key = some t) : ∃ k, (k, t) ∈ l.entries ∧ k.place = key.place := by
  obtain ⟨e, he, rfl⟩ := Option.map_eq_some_iff.1 h
  have hsame : e.1.same key = true := by simpa using List.find?_some he
  exact ⟨e.1, List.mem_of_find?_eq_some he, LedgerKey.same_iff.1 hsame⟩

theorem tally?_isSome_iff : (l.tally? key).isSome = true ↔ key.place ∈ l.places := by
  simp [tally?, places, LedgerKey.same_iff]

theorem tally?_eq_none_iff : l.tally? key = none ↔ key.place ∉ l.places := by
  rw [← tally?_isSome_iff]
  simp

/-- Where places are distinct, an entry is found under its key. -/
theorem Distinct.tally?_of_mem (hl : l.Distinct) {e : LedgerKey × Tally} (he : e ∈ l.entries)
    (hkey : e.1.place = key.place) : l.tally? key = some e.2 := by
  have hsome : (l.tally? key).isSome = true := by
    rw [tally?_isSome_iff, ← hkey]
    exact List.mem_map_of_mem he
  obtain ⟨t, ht⟩ := Option.isSome_iff_exists.1 hsome
  obtain ⟨k, hk, hplace⟩ := mem_of_tally? ht
  have heq : (k, t) = e := List.inj_on_of_nodup_map hl hk he (hplace.trans hkey.symm)
  rw [ht, ← heq]

theorem Distinct.tally?_eq_some_iff (hl : l.Distinct) :
    l.tally? key = some t ↔ ∃ k, (k, t) ∈ l.entries ∧ k.place = key.place :=
  ⟨mem_of_tally?, fun ⟨_, hk, hplace⟩ => hl.tally?_of_mem hk hplace⟩

theorem any_same_iff : l.entries.any (·.1.same key) = true ↔ key.place ∈ l.places := by
  simp [places, LedgerKey.same_iff]

theorem entries_setTally (l : Ledger) (key : LedgerKey) (t : Tally) :
    (l.setTally key t).entries = upsert (·.1.same key) (fun e => (e.1, t)) (key, t) l.entries := by
  unfold setTally upsert
  split <;> rfl

theorem tally?_setTally (l : Ledger) (key : LedgerKey) (t : Tally) (k : LedgerKey) :
    (l.setTally key t).tally? k = if key.place = k.place then some t else l.tally? k := by
  rw [tally?, entries_setTally]
  by_cases heq : key.place = k.place
  · have hsame : (fun e : LedgerKey × Tally => e.1.same k) = fun e => e.1.same key := by
      funext e
      rw [Bool.eq_iff_iff, LedgerKey.same_iff, LedgerKey.same_iff, heq]
    rw [if_pos heq, hsame, find?_upsert_self ?_ ?_]
    · cases l.entries.find? fun e => e.1.same key <;> rfl
    · exact fun _ => rfl
    · exact LedgerKey.same_iff.2 rfl
  · rw [if_neg heq, find?_upsert_of_disjoint ?_ ?_ ?_, tally?]
    · exact fun _ => rfl
    · intro e he
      rw [LedgerKey.same_iff] at he
      rw [← Bool.not_eq_true, LedgerKey.same_iff, he]
      exact Ne.symm heq
    · rw [← Bool.not_eq_true, LedgerKey.same_iff]
      exact heq

/-- The keys after a tally was set: the first key of an entry stays. -/
theorem keys_setTally (l : Ledger) (key : LedgerKey) (t : Tally) :
    (l.setTally key t).entries.map (·.1) =
      if key.place ∈ l.places then l.entries.map (·.1) else l.entries.map (·.1) ++ [key] := by
  unfold setTally
  by_cases hany : l.entries.any (·.1.same key) = true
  · rw [if_pos hany, if_pos (any_same_iff.1 hany), List.map_map]
    apply List.map_congr_left
    intro e _
    dsimp only [Function.comp]
    split <;> rfl
  · rw [if_neg hany, if_neg (fun hmem => hany (any_same_iff.2 hmem))]
    simp

theorem places_setTally (l : Ledger) (key : LedgerKey) (t : Tally) :
    (l.setTally key t).places = if key.place ∈ l.places then l.places else l.places ++ [key.place] := by
  have hplaces (k : Ledger) : k.places = (k.entries.map (·.1)).map LedgerKey.place := by
    simp [places]
  rw [hplaces, keys_setTally, apply_ite (List.map LedgerKey.place), List.map_append, ← hplaces]
  rfl

theorem Distinct.setTally (hl : l.Distinct) (key : LedgerKey) (t : Tally) : (l.setTally key t).Distinct := by
  rw [Distinct, places_setTally]
  split
  · exact hl
  · rename_i habsent
    exact List.Nodup.append hl (List.nodup_singleton _) (by simpa using habsent)

@[simp]
theorem textsOf_setTally (l : Ledger) (key : LedgerKey) (t : Tally) (r m : String) :
    (l.setTally key t).textsOf r m = l.textsOf r m := by
  unfold setTally
  split <;> rfl

theorem setTally_of_absent (h : key.place ∉ l.places) (t : Tally) :
    l.setTally key t = { l with entries := l.entries ++ [(key, t)] } := by
  unfold setTally
  rw [if_neg (fun hany => h (any_same_iff.1 hany))]

theorem Distinct.addTally (hl : l.Distinct) (key : LedgerKey) (t : Tally) : (l.addTally key t).Distinct :=
  hl.setTally _ _

theorem Distinct.indexOf (hl : l.Distinct) (receiver method signature : String) :
    (l.indexOf receiver method signature).2.Distinct :=
  distinct_of_entries (entries_indexOf _ _ _ _) hl

/-! ## Sums -/

/-- A count that adds up when tallies do, and is zero where nothing was tried. -/
structure Additive (count : Tally → Int) : Prop where
  add : ∀ a b : Tally, count (a.add b) = count a + count b
  fresh : ∀ signature, count { signature } = 0

theorem additive_attempted : Additive (·.attempted) := ⟨fun _ _ => rfl, fun _ => rfl⟩

theorem additive_satisfied : Additive (·.satisfied) := ⟨fun _ _ => rfl, fun _ => rfl⟩

theorem total_eq_sum (l : Ledger) (count : Tally → Int) :
    l.total count = (l.entries.map fun e => count e.2).sum := by
  unfold total
  induction l.entries with
  | nil => rfl
  | cons e es ih => simp [ih]

/-- What replacing a tally does to the sum of a count. -/
theorem total_setTally (hl : l.Distinct) (key : LedgerKey) (t : Tally) (count : Tally → Int) :
    (l.setTally key t).total count + ((l.tally? key).map count).getD 0 = l.total count + count t := by
  by_cases hmem : key.place ∈ l.places
  · obtain ⟨e, he, hplace⟩ := List.mem_map.1 hmem
    obtain ⟨before, after, hsplit⟩ := List.append_of_mem he
    -- no other entry is at the place, so all others stay
    have hothers : ∀ f ∈ before ++ after, f.1.same key = false := by
      intro f hf
      rw [← Bool.not_eq_true, LedgerKey.same_iff, ← hplace]
      have hnodup : (e.1.place :: (before ++ after).map (·.1.place)).Nodup := by
        have hl' := hl
        rw [Distinct, places, hsplit] at hl'
        simp only [List.map_append, List.map_cons] at hl' ⊢
        exact (List.nodup_middle.1 hl')
      exact fun heq => (List.nodup_cons.1 hnodup).1 (List.mem_map.2 ⟨f, hf, heq⟩)
    have hstay (fs : List (LedgerKey × Tally)) (hfs : ∀ f ∈ fs, f.1.same key = false) :
        fs.map (fun f => if f.1.same key = true then (f.1, t) else f) = fs := by
      conv_rhs => rw [← List.map_id fs]
      apply List.map_congr_left
      intro f hf
      simp [hfs f hf]
    have hentries : (l.setTally key t).entries = before ++ (e.1, t) :: after := by
      unfold setTally
      rw [if_pos (any_same_iff.2 hmem), hsplit]
      simp only [List.map_append, List.map_cons]
      rw [hstay before fun f hf => hothers f (List.mem_append_left _ hf),
        hstay after fun f hf => hothers f (List.mem_append_right _ hf),
        if_pos (LedgerKey.same_iff.2 hplace)]
    rw [total_eq_sum, total_eq_sum, hentries, hl.tally?_of_mem he hplace, hsplit]
    simp only [List.map_append, List.map_cons, List.sum_append, List.sum_cons, Option.map_some, Option.getD_some]
    omega
  · rw [tally?_eq_none_iff.2 hmem, setTally_of_absent hmem, total_eq_sum, total_eq_sum]
    simp

theorem total_addTally (hl : l.Distinct) (key : LedgerKey) (t : Tally) {count : Tally → Int}
    (hcount : Additive count) : (l.addTally key t).total count = l.total count + count t := by
  have hset := total_setTally hl key (((l.tally? key).getD { signature := t.signature }).add t) count
  rw [hcount.add] at hset
  rw [addTally]
  cases hfound : l.tally? key with
  | none =>
    rw [hfound] at hset
    simp only [Option.map_none, Option.getD_none, hcount.fresh] at hset ⊢
    omega
  | some u =>
    rw [hfound] at hset
    simp only [Option.map_some, Option.getD_some] at hset ⊢
    omega

theorem total_of_entries (h : l'.entries = l.entries) (count : Tally → Int) : l'.total count = l.total count := by
  rw [total, total, h]

/-! ## Order -/

theorem sorted_perm (l : Ledger) : l.sorted.Perm l.entries := List.mergeSort_perm _ _

theorem sum_sorted (l : Ledger) (count : Tally → Int) :
    ((l.sorted.map (·.2)).map count).sum = l.total count := by
  rw [total_eq_sum, List.map_map]
  exact (l.sorted_perm.map fun e : LedgerKey × Tally => count e.2).sum_eq

theorem sorted_pairwise (l : Ledger) : l.sorted.Pairwise fun a b => a.1.place ≤ b.1.place := by
  have hsorted := @List.pairwise_mergeSort _ (fun a b : LedgerKey × Tally => a.1.le b.1)
    (fun a b c hab hbc => LedgerKey.le_iff.2 ((LedgerKey.le_iff.1 hab).trans (LedgerKey.le_iff.1 hbc)))
    (fun a b => by simpa [LedgerKey.le_iff] using le_total a.1.place b.1.place) l.entries
  exact hsorted.imp LedgerKey.le_iff.1

/-- Where places are distinct, they stand in strict order. -/
theorem Distinct.places_sorted (hl : l.Distinct) : (l.sorted.map (·.1.place)).Pairwise (· < ·) := by
  have hle : (l.sorted.map (·.1.place)).Pairwise (· ≤ ·) := List.pairwise_map.2 l.sorted_pairwise
  have hne : (l.sorted.map (·.1.place)).Nodup := (l.sorted_perm.map _).nodup_iff.2 hl
  exact (hle.and hne).imp fun h => lt_of_le_of_ne h.1 h.2

theorem mem_unexercised_iff : key ∈ l.unexercised ↔ ∃ t, (key, t) ∈ l.entries ∧ t.satisfied = 0 := by
  simp [unexercised, l.sorted_perm.mem_iff]

theorem Distinct.unexercised_pairwise (hl : l.Distinct) : l.unexercised.Pairwise fun a b => a.place < b.place := by
  have hsorted := List.pairwise_map.1 hl.places_sorted
  exact List.pairwise_map.2 (hsorted.sublist List.filter_sublist)

theorem Distinct.of_perm (hl : l.Distinct) (h : l.entries.Perm l'.entries) : l'.Distinct :=
  (h.map _).nodup_iff.1 hl

theorem tally?_eq_of_perm (hl : l.Distinct) (h : l.entries.Perm l'.entries) (key : LedgerKey) :
    l.tally? key = l'.tally? key := by
  apply Option.ext
  intro t
  rw [hl.tally?_eq_some_iff, (hl.of_perm h).tally?_eq_some_iff]
  simp [h.mem_iff]

/-- Entries with distinct places have one order. -/
theorem sorted_eq_of_perm (hl : l.Distinct) (h : l.entries.Perm l'.entries) : l.sorted = l'.sorted := by
  have hperm : l.sorted.Perm l'.sorted := l.sorted_perm.trans (h.trans l'.sorted_perm.symm)
  apply hperm.eq_of_pairwise ?_ l.sorted_pairwise l'.sorted_pairwise
  intro a b ha hb hab hba
  have ha' : a ∈ l.entries := l.sorted_perm.mem_iff.1 ha
  have hb' : b ∈ l.entries := h.mem_iff.2 (l'.sorted_perm.mem_iff.1 hb)
  exact List.inj_on_of_nodup_map hl ha' hb' (le_antisymm hab hba)

theorem unexercised_eq_of_perm (hl : l.Distinct) (h : l.entries.Perm l'.entries) :
    l.unexercised = l'.unexercised := by
  rw [unexercised, unexercised, sorted_eq_of_perm hl h]

theorem total_eq_of_perm (h : l.entries.Perm l'.entries) (count : Tally → Int) :
    l.total count = l'.total count := by
  rw [total_eq_sum, total_eq_sum]
  exact (h.map _).sum_eq

theorem totals_eq_of_perm (h : l.entries.Perm l'.entries) : l.totals = l'.totals := by
  unfold totals
  rw [total_eq_of_perm h, total_eq_of_perm h, h.length_eq, (h.filter _).length_eq]

end Ledger

end Conformance
