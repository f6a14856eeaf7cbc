import Conformance.Proofs.Ledger.Dense

/-!
# What a ledger tells of the calls entered in it

A `Use` is one call with the overloads that it was checked against, and which of them it satisfied.  A ledger
`Reflects` what was listed and what was tried of each method, when it has an entry for every text listed, at the
position where the text was first listed, with the counts of the attempts at it.  To list further texts and to enter
attempts at texts that are listed keeps that so (`Reflects.declare`, `Reflects.records`), hence a ledger in which a
use is entered `Tells` of that use and of those before it (`Tells.enter`).
-/

namespace Conformance

/-- A call that was checked against overloads. -/
structure Use where
  receiver : String
  method : String
  /-- The texts of the overloads, in order. -/
  texts : List String
  /-- Which of them the call satisfies. -/
  matched : Option Nat := none
  deriving DecidableEq, Repr, Inhabited

namespace Use

/-- Is it a call of this method? -/
def isOf (u : Use) (receiver method : String) : Bool := u.receiver == receiver && u.method == method

/-- The texts of the overloads tried: all up to the one that is satisfied. -/
def tried (u : Use) : List String := u.matched.elim u.texts fun k => u.texts.take (k + 1)

/-- The text of the overload that is satisfied. -/
def hit? (u : Use) : Option String := u.matched.bind (u.texts[·]?)

/-- The texts tried, with which of them is satisfied: the last, if one is. -/
def attempts (u : Use) : List (String × Bool) :=
  (u.matched.elim u.texts fun k => u.texts.take k).map (·, false) ++ u.hit?.toList.map (·, true)

/-- What the calls of a method come with, call after call. -/
def gather {α : Type} (part : Use → List α) (us : List Use) (receiver method : String) : List α :=
  (us.filter (·.isOf receiver method)).flatMap part

/-- The texts listed for a method. -/
def listed (us : List Use) : String → String → List String := gather texts us

/-- How often a text was tried. -/
def attemptsAt (us : List Use) (receiver method text : String) : Nat :=
  (gather tried us receiver method).count text

/-- How many calls satisfy the overload with a text. -/
def hitsAt (us : List Use) (receiver method text : String) : Nat :=
  us.countP fun u => u.isOf receiver method && u.hit? == some text

/-- The key of a text: its position is that among the texts listed, each counted where it is listed first. -/
def keyOf (us : List Use) (receiver method text : String) : LedgerKey :=
  ⟨receiver, method, .number ((listed us receiver method).eraseDups.idxOf text)⟩

/-- The entry of a text. -/
def entryOf (us : List Use) (receiver method text : String) : LedgerKey × Tally :=
  (keyOf us receiver method text,
    ⟨attemptsAt us receiver method text, hitsAt us receiver method text, text⟩)

end Use

namespace Ledger

/-! ## Tables by method -/

/-- A table by method with more for one method. -/
def extend {α : Type} (table : String → String → List α) (receiver method : String) (more : List α) :
    String → String → List α :=
  fun r m => if receiver = r ∧ method = m then table r m ++ more else table r m

section Extend

variable {α : Type} (table : String → String → List α) (receiver method : String)

theorem extend_nil : extend table receiver method [] = table := by
  funext r m
  simp [extend]

theorem extend_extend (more others : List α) :
    extend (extend table receiver method more) receiver method others =
      extend table receiver method (more ++ others) := by
  funext r m
  unfold extend
  split
  · rw [List.append_assoc]
  · rfl

theorem mem_extend_self {more : List α} {a : α} :
    a ∈ extend table receiver method more receiver method ↔ a ∈ table receiver method ∨ a ∈ more := by
  simp [extend]

end Extend

end Ledger

/-! ## Counting attempts -/

namespace Use

theorem fst_attempts (u : Use) : u.attempts.map (·.1) = u.tried := by
  unfold attempts tried hit?
  cases u.matched with
  | none => simp [Function.comp_def]
  | some k => simp [Function.comp_def, List.take_add_one]

theorem tried_subset (u : Use) : u.tried ⊆ u.texts := by
  unfold tried
  cases u.matched with
  | none => exact List.Subset.refl _
  | some k => exact List.take_subset _ _

/-- The attempts of a call that succeed: one, at the overload that is satisfied. -/
theorem count_attempts (u : Use) (text : String) :
    u.attempts.count (text, true) = if u.hit? = some text then 1 else 0 := by
  have hfailed (texts : List String) : (texts.map (·, false)).count (text, true) = 0 := by
    simp [List.count_eq_zero]
  rw [attempts, List.count_append, hfailed]
  cases u.hit? with
  | none => simp
  | some found => simp [List.count_singleton]

theorem gather_concat {α : Type} (part : Use → List α) (us : List Use) (u : Use) :
    gather part (us ++ [u]) = Ledger.extend (gather part us) u.receiver u.method (part u) := by
  funext r m
  unfold gather Ledger.extend
  rw [List.filter_append, List.flatMap_append]
  by_cases hhere : u.receiver = r ∧ u.method = m <;> simp [isOf, hhere]

/-- The attempts at a text, of all calls. -/
theorem countP_gather (us : List Use) (receiver method text : String) :
    (gather attempts us receiver method).countP (·.1 == text) = attemptsAt us receiver method text := by
  have hfst : (gather attempts us receiver method).map (·.1) = gather tried us receiver method := by
    unfold gather
    rw [List.map_flatMap]
    exact List.flatMap_congr fun u _ => u.fst_attempts
  rw [attemptsAt, ← hfst, List.count, List.countP_map]
  rfl

/-- The successful attempts at a text, of all calls. -/
theorem count_gather (us : List Use) (receiver method text : String) :
    (gather attempts us receiver method).count (text, true) = hitsAt us receiver method text := by
  unfold hitsAt
  induction us with
  | nil => rfl
  | cons u us ih =>
    rw [List.countP_cons, ← ih]
    unfold gather
    by_cases hhere : u.isOf receiver method = true
    · simp [hhere, List.count_append, count_attempts, Nat.add_comm]
    · simp [hhere]

end Use

namespace Ledger

theorem eraseDups_concat (texts : List String) (text : String) :
    (texts ++ [text]).eraseDups = if text ∈ texts then texts.eraseDups else texts.eraseDups ++ [text] := by
  rw [List.eraseDups_append]
  by_cases h : text ∈ texts <;> simp [List.removeAll, h, List.eraseDups_cons]

/-! ## Reflection -/

/-- The ledger has an entry for each text listed, with the counts of what was tried, and no other. -/
structure Reflects (l : Ledger) (listed : String → String → List String)
    (tried : String → String → List (String × Bool)) : Prop where
  dense : l.Dense
  /-- Nothing is tried that is not listed. -/
  covered : ∀ receiver method, ∀ a ∈ tried receiver method, a.1 ∈ listed receiver method
  texts : ∀ receiver method, l.textsOf receiver method = (listed receiver method).eraseDups.map some
  tallies : ∀ receiver method text, l.tallyOf? receiver method text =
    if text ∈ listed receiver method then
      some ⟨(tried receiver method).countP (·.1 == text), (tried receiver method).count (text, true), text⟩
    else none

theorem reflects_empty : empty.Reflects (fun _ _ => []) (fun _ _ => []) where
  dense := dense_empty
  covered _ _ _ h := nomatch h
  texts _ _ := rfl
  tallies _ _ _ := rfl

namespace Reflects

variable {l : Ledger} {listed : String → String → List String} {tried : String → String → List (String × Bool)}
  {receiver method text : String}

section

variable (h : l.Reflects listed tried)
include h

theorem position?_eq_none_iff :
    l.position? receiver method text = none ↔ text ∉ listed receiver method := by
  rw [Dense.position?_eq_none_iff, h.texts]
  simp

/-- Listing a text that is listed already changes nothing. -/
theorem relist (htext : text ∈ listed receiver method) :
    l.Reflects (extend listed receiver method [text]) tried := by
  have hmem (r m s : String) : s ∈ extend listed receiver method [text] r m ↔ s ∈ listed r m := by
    unfold extend
    split
    · rename_i hhere
      obtain ⟨rfl, rfl⟩ := hhere
      simp only [List.mem_append, List.mem_singleton]
      exact ⟨fun hs => hs.elim id (fun heq => heq ▸ htext), .inl⟩
    · rfl
  refine ⟨h.dense, fun r m a ha => (hmem r m a.1).2 (h.covered r m a ha), fun r m => ?_, fun r m s => ?_⟩
  · rw [h.texts]
    unfold extend
    split
    · rename_i hhere
      obtain ⟨rfl, rfl⟩ := hhere
      rw [eraseDups_concat, if_pos htext]
    · rfl
  · rw [h.tallies]
    simp only [hmem]

/-- Opening an entry for a text that is not listed yet. -/
theorem opened (htext : text ∉ listed receiver method) :
    (l.put receiver method text { signature := text }).Reflects (extend listed receiver method [text]) tried := by
  constructor
  · exact h.dense.put rfl
  · intro r m a ha
    unfold extend
    split
    · exact List.mem_append_left _ (h.covered r m a ha)
    · exact h.covered r m a ha
  · intro r m
    rw [textsOf_put, h.texts]
    unfold extend
    by_cases hhere : receiver = r ∧ method = m
    · obtain ⟨rfl, rfl⟩ := hhere
      rw [if_pos ⟨rfl, rfl, h.position?_eq_none_iff.2 htext⟩, if_pos ⟨rfl, rfl⟩, eraseDups_concat, if_neg htext]
      simp
    · rw [if_neg hhere, if_neg fun hall => hhere ⟨hall.1, hall.2.1⟩]
  · intro r m s
    rw [tallyOf?_put, h.tallies]
    unfold extend
    by_cases hhere : receiver = r ∧ method = m
    · obtain ⟨rfl, rfl⟩ := hhere
      by_cases hs : text = s
      · subst hs
        -- a text that is not listed was never tried
        have hnever : ∀ a ∈ tried receiver method, a.1 ≠ text := fun a ha heq => htext (heq ▸ h.covered _ _ a ha)
        have hcount : (tried receiver method).countP (·.1 == text) = 0 := by simpa using hnever
        have hcount' : (tried receiver method).count (text, true) = 0 :=
          List.count_eq_zero.2 fun hmem => hnever _ hmem rfl
        simp [hcount, hcount']
      · have hmem : s ∈ listed receiver method ++ [text] ↔ s ∈ listed receiver method := by
          simp [Ne.symm hs]
        simp [hs, hmem]
    · rw [if_neg hhere, if_neg fun hall => hhere ⟨hall.1, hall.2.1⟩]

theorem declareOne (receiver method text : String) :
    (l.declareOne receiver method text).2.Reflects (extend listed receiver method [text]) tried := by
  rw [h.dense.declareOne_eq, h.tallies]
  by_cases htext : text ∈ listed receiver method
  · simpa [htext] using h.relist htext
  · simpa [htext] using h.opened htext

theorem declare (receiver method : String) (texts : List String) :
    (l.declare receiver method texts).2.Reflects (extend listed receiver method texts) tried := by
  induction texts generalizing l listed with
  | nil =>
    rw [extend_nil]
    exact h
  | cons text rest ih =>
    have hrest := ih (h.declareOne receiver method text)
    rw [extend_extend] at hrest
    exact hrest

theorem recordText (htext : text ∈ listed receiver method) (satisfied : Bool) :
    (l.recordText receiver method text satisfied).2.Reflects listed
      (extend tried receiver method [(text, satisfied)]) := by
  have hknown : l.position? receiver method text ≠ none := by
    rw [Ne, h.position?_eq_none_iff]
    exact not_not_intro htext
  rw [h.dense.recordText_eq]
  constructor
  · exact h.dense.enter receiver method _
  · intro r m a ha
    unfold extend at ha
    split at ha
    · rename_i hhere
      obtain ⟨rfl, rfl⟩ := hhere
      rcases List.mem_append.1 ha with ha | ha
      · exact h.covered _ _ a ha
      · rw [List.mem_singleton.1 ha]
        exact htext
    · exact h.covered r m a ha
  · intro r m
    rw [enter, textsOf_put, if_neg fun hall => hknown hall.2.2, h.texts]
  · intro r m s
    rw [enter, tallyOf?_put, h.tallies, h.tallies]
    unfold extend
    by_cases hhere : receiver = r ∧ method = m
    · obtain ⟨rfl, rfl⟩ := hhere
      by_cases hs : text = s
      · subst hs
        cases satisfied <;> simp [Tally.one, Tally.add, htext, List.count_append]
      · simp [Tally.one, hs, List.count_append]
    · rw [if_neg hhere, if_neg fun hall => hhere ⟨hall.1, hall.2.1⟩]

theorem records {attempts : List (String × Bool)}
    (hlisted : ∀ a ∈ attempts, a.1 ∈ listed receiver method) :
    (attempts.foldl (fun l a => (l.recordText receiver method a.1 a.2).2) l).Reflects listed
      (extend tried receiver method attempts) := by
  induction attempts generalizing l tried with
  | nil =>
    rw [extend_nil]
    exact h
  | cons a attempts ih =>
    have hone := h.recordText (hlisted a (by simp)) a.2
    have hrest := ih hone fun b hb => hlisted b (by simp [hb])
    rw [extend_extend] at hrest
    exact hrest

end

end Reflects

/-! ## Ledgers of calls -/

/-- The ledger is that of these calls. -/
def Tells (l : Ledger) (us : List Use) : Prop := l.Reflects (Use.listed us) (Use.gather Use.attempts us)

theorem tells_nil : empty.Tells [] := reflects_empty

namespace Tells

variable {l : Ledger} {us : List Use}

/-- Entering a call: its overloads are listed, and then the attempts at them are recorded. -/
theorem enter (h : l.Tells us) (u : Use) :
    (u.attempts.foldl (fun l a => (l.recordText u.receiver u.method a.1 a.2).2)
      (l.declare u.receiver u.method u.texts).2).Tells (us ++ [u]) := by
  have hdeclared := h.declare u.receiver u.method u.texts
  have hlisted : ∀ a ∈ u.attempts, a.1 ∈ extend (Use.listed us) u.receiver u.method u.texts u.receiver u.method := by
    intro a ha
    have htried : a.1 ∈ u.tried := by
      rw [← u.fst_attempts]
      exact List.mem_map_of_mem ha
    exact (mem_extend_self _ _ _).2 (.inr (u.tried_subset htried))
  unfold Tells Use.listed
  rw [Use.gather_concat, Use.gather_concat]
  exact hdeclared.records hlisted

theorem position? (h : l.Tells us) {receiver method text : String} (htext : text ∈ Use.listed us receiver method) :
    l.position? receiver method text = some ((Use.listed us receiver method).eraseDups.idxOf text) := by
  rw [h.dense.position?_eq_some_iff, h.texts, List.getElem?_map,
    List.getElem?_idxOf (List.mem_eraseDups.2 htext)]
  rfl

theorem tallyOf? (h : l.Tells us) (receiver method text : String) : l.tallyOf? receiver method text =
    if text ∈ Use.listed us receiver method then some (Use.entryOf us receiver method text).2 else none := by
  rw [h.tallies, Use.countP_gather, Use.count_gather]
  rfl

/-- There is one entry for each text that was listed, and no other. -/
theorem mem_entries_iff (h : l.Tells us) {e : LedgerKey × Tally} :
    e ∈ l.entries ↔ ∃ receiver method text, text ∈ Use.listed us receiver method ∧
      e = Use.entryOf us receiver method text := by
  rw [h.dense.mem_entries_iff]
  constructor
  · rintro ⟨r, m, text, i, hi, ht, hkey⟩
    rw [h.tallyOf?] at ht
    split at ht
    · rename_i htext
      rw [h.position? htext] at hi
      cases hi
      exact ⟨r, m, text, htext, Prod.ext hkey (Option.some.inj ht).symm⟩
    · cases ht
  · rintro ⟨r, m, text, htext, rfl⟩
    exact ⟨r, m, text, _, h.position? htext, by rw [h.tallyOf?, if_pos htext], rfl⟩

/-- The overloads that nothing has satisfied are those that were listed and that no call satisfies. -/
theorem mem_unexercised_iff (h : l.Tells us) {key : LedgerKey} :
    key ∈ l.unexercised ↔ ∃ receiver method text, text ∈ Use.listed us receiver method ∧
      (∀ u ∈ us, u.isOf receiver method = true → u.hit? ≠ some text) ∧ key = Use.keyOf us receiver method text := by
  have hnever (r m text : String) : Use.hitsAt us r m text = 0 ↔
      ∀ u ∈ us, u.isOf r m = true → u.hit? ≠ some text := by
    simp [Use.hitsAt]
  rw [Ledger.mem_unexercised_iff]
  constructor
  · rintro ⟨t, hmem, hzero⟩
    obtain ⟨r, m, text, htext, heq⟩ := h.mem_entries_iff.1 hmem
    cases heq
    refine ⟨r, m, text, htext, (hnever r m text).1 ?_, rfl⟩
    simpa using hzero
  · rintro ⟨r, m, text, htext, hhits, rfl⟩
    refine ⟨(Use.entryOf us r m text).2, h.mem_entries_iff.2 ⟨r, m, text, htext, rfl⟩, ?_⟩
    simpa [Use.entryOf] using (hnever r m text).2 hhits

end Tells

end Ledger

end Conformance
