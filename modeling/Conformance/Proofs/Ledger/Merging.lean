import Mathlib
import Conformance.Proofs.Ledger.Persistence

/-!
# Ledgers that are merged

A ledger that was merged from others need not be dense: an entry whose text is empty keeps the position that it had in
the ledger it came from, whatever stands there.  But such an entry counts nothing, and all others stand where their text
does.  That is `Traceable`.  It is enough to read the counts of a text off the entries (`Traceable.countOf_eq_sum`), and
every operation by text and every merge keeps it.

So what counts for a text is what was recorded of it, no matter in how many ledgers, and in what order these were
merged (`Plan.countOf_ledger`).
-/

namespace Conformance

theorem Tally.add_blank (t : Tally) : t.add {} = t := by
  obtain ⟨attempted, satisfied, signature⟩ := t
  by_cases h : signature = "" <;> simp [Tally.add, h]

namespace Ledger

variable {l other : Ledger} {receiver method signature : String} {count : Tally → Int} {i : Nat} {t : Tally}

/-- What a ledger counts for a text: nothing, if it does not know the text. -/
def countOf (l : Ledger) (count : Tally → Int) (receiver method signature : String) : Int :=
  ((l.tallyOf? receiver method signature).map count).getD 0

/-! ## Traceable ledgers -/

/-- The tally has the text at this position, or it has no text and counts nothing. -/
def IsTitled (texts : List (Option String)) (i : Nat) (t : Tally) : Prop :=
  t = {} ∨ t.signature ≠ "" ∧ texts[i]? = some (some t.signature)

theorem IsTitled.mono {texts more : List (Option String)} (h : IsTitled texts i t) (hmore : texts <+: more) :
    IsTitled more i t := by
  refine h.imp_right fun ⟨hsignature, htext⟩ => ⟨hsignature, ?_⟩
  obtain ⟨rest, rfl⟩ := hmore
  rw [List.getElem?_append_left (List.getElem?_eq_some_iff.1 htext).1]
  exact htext

/-- Every entry stands at the position of its text, or has no text and counts nothing. -/
structure Traceable (l : Ledger) : Prop where
  distinct : l.Distinct
  nodup : ∀ receiver method, (l.textsOf receiver method).Nodup
  placed : ∀ e ∈ l.entries, ∃ i : Nat, e.1.index = .number i ∧ IsTitled (l.textsOf e.1.receiver e.1.method) i e.2

theorem traceable_empty : empty.Traceable where
  distinct := distinct_empty
  nodup _ _ := List.nodup_nil
  placed _ h := by cases h

/-- The entry is one for this text. -/
def IsFor (receiver method signature : String) (e : LedgerKey × Tally) : Prop :=
  e.1.receiver = receiver ∧ e.1.method = method ∧ e.2.signature = signature

instance (receiver method signature : String) : DecidablePred (IsFor receiver method signature) :=
  fun _ => inferInstanceAs (Decidable (_ ∧ _ ∧ _))

/-- What an entry counts for a text. -/
def share (count : Tally → Int) (receiver method signature : String) (e : LedgerKey × Tally) : Int :=
  if IsFor receiver method signature e then count e.2 else 0

namespace Traceable

variable {e : LedgerKey × Tally}

section

variable (hl : l.Traceable)
include hl

theorem isTitled (ht : l.tally? ⟨receiver, method, .number i⟩ = some t) :
    IsTitled (l.textsOf receiver method) i t := by
  obtain ⟨⟨r, m, index⟩, hk, hplace⟩ := mem_of_tally? ht
  obtain ⟨j, hj, htitled⟩ := hl.placed _ hk
  dsimp only at hj htitled
  subst hj
  obtain ⟨rfl, rfl, rfl⟩ := LedgerKey.place_number_inj.1 hplace
  exact htitled

/-- An entry that has a text is found by it, and stands at its position. -/
theorem position?_of_mem (he : e ∈ l.entries) (hne : e.2 ≠ {}) :
    ∃ i, l.position? e.1.receiver e.1.method e.2.signature = some i ∧ e.1 = ⟨e.1.receiver, e.1.method, .number i⟩ := by
  obtain ⟨i, hi, hblank | ⟨-, htext⟩⟩ := hl.placed e he
  · exact absurd hblank hne
  · exact ⟨i, (position?_eq_some_iff_of_nodup (hl.nodup _ _)).2 htext, by rw [← hi]⟩

theorem tallyOf?_of_mem (he : e ∈ l.entries) (hne : e.2 ≠ {}) :
    l.tallyOf? e.1.receiver e.1.method e.2.signature = some e.2 := by
  obtain ⟨i, hi, hkey⟩ := hl.position?_of_mem he hne
  rw [tallyOf?, hi, Option.bind_some, ← hkey]
  exact hl.distinct.tally?_of_mem he rfl

/-- No two entries have the same text, if they have one. -/
theorem eq_of_isFor {f : LedgerKey × Tally} (he : e ∈ l.entries) (hf : f ∈ l.entries)
    (hne : e.2 ≠ {}) (hne' : f.2 ≠ {}) (h : IsFor e.1.receiver e.1.method e.2.signature f) : f = e := by
  obtain ⟨i, hi, hkey⟩ := hl.position?_of_mem he hne
  obtain ⟨j, hj, hkey'⟩ := hl.position?_of_mem hf hne'
  rw [h.1, h.2.1, h.2.2, hi] at hj
  cases hj
  rw [h.1, h.2.1, ← hkey] at hkey'
  exact List.inj_on_of_nodup_map hl.distinct hf he (congrArg LedgerKey.place hkey')

/-- The tally found for a text is that of an entry with the text, or it counts nothing. -/
theorem isFor_of_tallyOf? (ht : l.tallyOf? receiver method signature = some t) :
    t = {} ∨ ∃ k, (k, t) ∈ l.entries ∧ IsFor receiver method signature (k, t) := by
  obtain ⟨i, hi, ht⟩ := Option.bind_eq_some_iff.1 ht
  refine (hl.isTitled ht).imp_right fun ⟨_, htext⟩ => ?_
  rw [getElem?_of_position? hi] at htext
  obtain ⟨⟨r, m, index⟩, hk, hplace⟩ := mem_of_tally? ht
  obtain ⟨j, hj, -⟩ := hl.placed _ hk
  dsimp only at hj
  subst hj
  obtain ⟨rfl, rfl, -⟩ := LedgerKey.place_number_inj.1 hplace
  exact ⟨_, hk, rfl, rfl, by simpa using htext.symm⟩

/-- What counts for a text is what the entries with that text count. -/
theorem countOf_eq_sum (hcount : Additive count) (receiver method signature : String) :
    l.countOf count receiver method signature = (l.entries.map (share count receiver method signature)).sum := by
  have hblank : count {} = 0 := hcount.fresh ""
  by_cases hknown : ∃ e ∈ l.entries, e.2 ≠ {} ∧ IsFor receiver method signature e
  · obtain ⟨e, he, hne, rfl, rfl, rfl⟩ := hknown
    have hothers : ∀ f ∈ l.entries.toFinset, f ≠ e → share count e.1.receiver e.1.method e.2.signature f = 0 := by
      intro f hf hfe
      unfold share
      split
      · rename_i hfor
        by_cases hempty : f.2 = {}
        · rw [hempty, hblank]
        · exact absurd (hl.eq_of_isFor he (List.mem_toFinset.1 hf) hne hempty hfor) hfe
      · rfl
    rw [← List.sum_toFinset _ (List.Nodup.of_map _ hl.distinct),
      Finset.sum_eq_single e hothers fun habsent => absurd (List.mem_toFinset.2 he) habsent, countOf,
      hl.tallyOf?_of_mem he hne, share, if_pos ⟨rfl, rfl, rfl⟩]
    rfl
  · push Not at hknown
    have hnone : (l.entries.map (share count receiver method signature)).sum = 0 := by
      apply List.sum_eq_zero
      intro x hx
      obtain ⟨e, he, rfl⟩ := List.mem_map.1 hx
      unfold share
      split
      · rename_i hfor
        by_cases hempty : e.2 = {}
        · rw [hempty, hblank]
        · exact absurd hfor (hknown e he hempty)
      · rfl
    rw [hnone, countOf]
    cases ht : l.tallyOf? receiver method signature with
    | none => rfl
    | some t =>
      rcases hl.isFor_of_tallyOf? ht with rfl | ⟨k, hk, hfor⟩
      · exact hblank
      · by_cases hempty : t = {}
        · rw [hempty]
          exact hblank
        · exact absurd hfor (hknown _ hk hempty)

/-! ## Steps -/

theorem indexOf (receiver method signature : String) :
    (l.indexOf receiver method signature).2.Traceable where
  distinct := hl.distinct.indexOf receiver method signature
  nodup r m := nodup_textsOf_indexOf (hl.nodup r m) receiver method signature
  placed e he := by
    rw [entries_indexOf] at he
    obtain ⟨i, hi, htitled⟩ := hl.placed e he
    have hgrown := textsOf_indexOf_prefix l receiver method signature e.1.receiver e.1.method
    exact ⟨i, hi, htitled.mono hgrown⟩

theorem setTally (ht : IsTitled (l.textsOf receiver method) i t) :
    (l.setTally ⟨receiver, method, .number i⟩ t).Traceable where
  distinct := hl.distinct.setTally _ _
  nodup r m := by
    rw [textsOf_setTally]
    exact hl.nodup r m
  placed := by
    rintro ⟨⟨r, m, index⟩, u⟩ he
    rw [textsOf_setTally]
    rcases mem_setTally he with hold | ⟨rfl, hkey | ⟨v, hold, hplace⟩⟩
    · exact hl.placed _ hold
    · cases hkey
      exact ⟨i, rfl, ht⟩
    · obtain ⟨j, hj, -⟩ := hl.placed _ hold
      dsimp only at hj
      subst hj
      obtain ⟨rfl, rfl, rfl⟩ := LedgerKey.place_number_inj.1 hplace
      exact ⟨_, rfl, ht⟩

/-- To ask for the position of a text counts nothing. -/
theorem countOf_indexOf (hcount : Additive count) (receiver method signature r m s : String) :
    (l.indexOf receiver method signature).2.countOf count r m s = l.countOf count r m s := by
  by_cases hit : receiver = r ∧ method = m ∧ signature = s
  · obtain ⟨rfl, rfl, rfl⟩ := hit
    cases h : l.position? receiver method signature with
    | some i => rw [indexOf_of_position? h]
    | none =>
      -- what stands where the text comes to stand has no text, and so counts nothing
      rw [countOf, tallyOf?, position?_indexOf, Option.bind_some, tally?_of_entries (entries_indexOf _ _ _ _), countOf,
        tallyOf?_of_unknown h, indexOf_of_unknown h]
      dsimp only
      cases ht : l.tally? ⟨receiver, method, .number (l.textsOf receiver method).length⟩ with
      | none => rfl
      | some t =>
        rcases hl.isTitled ht with rfl | ⟨-, htext⟩
        · exact hcount.fresh ""
        · simp at htext
  · rw [countOf, tallyOf?_indexOf_of_ne l hit, countOf]

theorem declareOne (receiver method signature : String) :
    (l.declareOne receiver method signature).2.Traceable := by
  have hlearned := hl.indexOf receiver method signature
  have htext := getElem?_of_position? (position?_indexOf l receiver method signature)
  unfold Ledger.declareOne
  dsimp only
  split
  · exact hlearned
  · refine hlearned.setTally ?_
    by_cases hsignature : signature = ""
    · exact .inl (by rw [hsignature])
    · exact .inr ⟨hsignature, htext⟩

theorem countOf_declareOne (hcount : Additive count) (receiver method signature r m s : String) :
    (l.declareOne receiver method signature).2.countOf count r m s = l.countOf count r m s := by
  have hlearned := hl.countOf_indexOf hcount receiver method signature r m s
  have hposition := position?_indexOf l receiver method signature
  unfold Ledger.declareOne
  dsimp only
  split
  · exact hlearned
  · rename_i habsent
    rw [← hlearned, countOf, tallyOf?_setTally hposition]
    split
    · rename_i hit
      obtain ⟨rfl, rfl, rfl⟩ := hit
      have hnone := Option.not_isSome_iff_eq_none.1 habsent
      rw [countOf, tallyOf?, hposition, Option.bind_some, hnone]
      exact hcount.fresh signature
    · rfl

/-- A tally is added at the position of its text. -/
theorem addTally (ht : t.signature ≠ "") (hi : l.position? receiver method t.signature = some i) :
    (l.addTally ⟨receiver, method, .number i⟩ t).Traceable := by
  have htext := getElem?_of_position? hi
  have hsignature : (((l.tally? ⟨receiver, method, .number i⟩).getD { signature := t.signature }).add t).signature =
      t.signature := by
    cases hfound : l.tally? ⟨receiver, method, .number i⟩ with
    | none => simp [Tally.add]
    | some u =>
      rcases hl.isTitled hfound with rfl | ⟨hne, hown⟩
      · simp [Tally.add]
      · rw [htext] at hown
        have heq : t.signature = u.signature := by simpa using hown
        simp [Tally.add, hne, heq]
  refine hl.setTally (.inr ?_)
  rw [hsignature]
  exact ⟨ht, htext⟩

end

theorem countOf_addTally (hcount : Additive count) (hi : l.position? receiver method t.signature = some i)
    (r m s : String) : (l.addTally ⟨receiver, method, .number i⟩ t).countOf count r m s =
      l.countOf count r m s + if receiver = r ∧ method = m ∧ t.signature = s then count t else 0 := by
  rw [Ledger.addTally, countOf, tallyOf?_setTally hi]
  split
  · rename_i hit
    obtain ⟨rfl, rfl, rfl⟩ := hit
    rw [countOf, tallyOf?, hi, Option.bind_some, Option.map_some, Option.getD_some, hcount.add]
    cases l.tally? ⟨receiver, method, .number i⟩ with
    | none => simp [hcount.fresh]
    | some u => rfl
  · rw [countOf, add_zero]

/-- To add a tally that has no text and counts nothing changes no tally. -/
theorem addTally_blank (hl : l.Traceable) (receiver method : String) (i : Nat) :
    (l.addTally ⟨receiver, method, .number i⟩ {}).Traceable := by
  refine hl.setTally ?_
  rw [Tally.add_blank]
  cases hfound : l.tally? ⟨receiver, method, .number i⟩ with
  | none => exact .inl rfl
  | some u => exact hl.isTitled hfound

theorem countOf_addTally_blank (hcount : Additive count) (key : LedgerKey) (r m s : String) :
    (l.addTally key {}).countOf count r m s = l.countOf count r m s := by
  have hposition : (l.addTally key {}).position? r m s = l.position? r m s := by
    unfold position?
    rw [Ledger.addTally, textsOf_setTally]
  rw [countOf, tallyOf?, hposition, countOf, tallyOf?]
  cases l.position? r m s with
  | none => rfl
  | some j =>
    rw [Option.bind_some, Option.bind_some, Ledger.addTally, tally?_setTally, Tally.add_blank]
    split
    · rename_i hplace
      rw [← tally?_of_place hplace]
      cases l.tally? key with
      | none => exact hcount.fresh ""
      | some u => rfl
    · rfl

/-! ## Merging -/

/-- An entry of another ledger that can be traced to its text. -/
theorem mergeEntry (hl : l.Traceable) (hindex : e.1.index = .number i) (he : e.2 = {} ∨ e.2.signature ≠ "") :
    (l.mergeEntry e).Traceable := by
  obtain ⟨⟨r, m, index⟩, t⟩ := e
  dsimp only at hindex he
  subst hindex
  unfold Ledger.mergeEntry
  rcases he with rfl | he
  · exact hl.addTally_blank r m i
  · rw [if_neg (by simpa using he)]
    exact (hl.indexOf r m t.signature).addTally he (position?_indexOf l r m t.signature)

theorem countOf_mergeEntry (hl : l.Traceable) (hcount : Additive count) (he : e.2 = {} ∨ e.2.signature ≠ "")
    (r m s : String) : (l.mergeEntry e).countOf count r m s = l.countOf count r m s + share count r m s e := by
  obtain ⟨key, t⟩ := e
  dsimp only at he
  unfold Ledger.mergeEntry
  rcases he with rfl | he
  · have hshare : share count r m s (key, {}) = 0 := by
      unfold share
      split
      · exact hcount.fresh ""
      · rfl
    rw [hshare, add_zero]
    exact countOf_addTally_blank hcount key r m s
  · rw [if_neg (by simpa using he)]
    dsimp only
    rw [countOf_addTally hcount (position?_indexOf l key.receiver key.method t.signature), hl.countOf_indexOf hcount]
    rfl

theorem foldl_mergeEntry (hl : l.Traceable) (hcount : Additive count) {es : List (LedgerKey × Tally)}
    (hes : ∀ e ∈ es, (∃ i : Nat, e.1.index = .number i) ∧ (e.2 = {} ∨ e.2.signature ≠ "")) (r m s : String) :
    (es.foldl Ledger.mergeEntry l).Traceable ∧ (es.foldl Ledger.mergeEntry l).countOf count r m s =
      l.countOf count r m s + (es.map (share count r m s)).sum := by
  induction es generalizing l with
  | nil => simpa using hl
  | cons e es ih =>
    obtain ⟨⟨i, hi⟩, he⟩ := hes e (by simp)
    obtain ⟨htraceable, hsum⟩ := ih (hl.mergeEntry hi he) fun f hf => hes f (by simp [hf])
    refine ⟨htraceable, ?_⟩
    rw [List.foldl_cons, hsum, hl.countOf_mergeEntry hcount he]
    simp
    omega

/-- A merged ledger counts for each text what both count for it. -/
theorem merge (hl : l.Traceable) (hother : other.Traceable) (hcount : Additive count) (r m s : String) :
    (l.merge other).Traceable ∧
      (l.merge other).countOf count r m s = l.countOf count r m s + other.countOf count r m s := by
  have hes : ∀ e ∈ other.sorted, (∃ i : Nat, e.1.index = .number i) ∧ (e.2 = {} ∨ e.2.signature ≠ "") := by
    intro e he
    obtain ⟨i, hi, htitled⟩ := hother.placed e (other.sorted_perm.mem_iff.1 he)
    exact ⟨⟨i, hi⟩, htitled.imp_right And.left⟩
  obtain ⟨htraceable, hsum⟩ := hl.foldl_mergeEntry hcount hes r m s
  refine ⟨htraceable, hsum.trans ?_⟩
  rw [hother.countOf_eq_sum hcount, (other.sorted_perm.map _).sum_eq]

end Traceable

/-! ## Operations by text -/

/-- The operations by text, merges apart: overloads are declared, and attempts are recorded at texts that are not
empty. -/
def Op.ByText : Op → Prop
  | declare .. => True
  | recordText _ _ signature _ => signature ≠ ""
  | _ => False

instance : DecidablePred Op.ByText
  | .declare .. => isTrue trivial
  | .recordText _ _ signature _ => inferInstanceAs (Decidable (signature ≠ ""))
  | .indexOf .. | .recordIndex .. | .merge _ => isFalse id

/-- What an operation counts for a text. -/
def Op.counted (count : Tally → Int) (receiver method signature : String) : Op → Int
  | recordText r m s satisfied => if r = receiver ∧ m = method ∧ s = signature then count (.one satisfied s) else 0
  | _ => 0

/-- To record an attempt is to merge an entry that counts it. -/
theorem recordText_eq_mergeEntry (l : Ledger) (receiver method : String) (hsignature : signature ≠ "") (satisfied : Bool) :
    (l.recordText receiver method signature satisfied).2 =
      l.mergeEntry (⟨receiver, method, .number 0⟩, .one satisfied signature) := by
  unfold mergeEntry
  rw [if_neg (by simpa [Tally.one] using hsignature)]
  rfl

theorem Traceable.declare (hl : l.Traceable) (hcount : Additive count) (receiver method : String)
    (signatures : List String) (r m s : String) : (l.declare receiver method signatures).2.Traceable ∧
      (l.declare receiver method signatures).2.countOf count r m s = l.countOf count r m s := by
  induction signatures generalizing l with
  | nil => exact ⟨hl, rfl⟩
  | cons signature rest ih =>
    obtain ⟨htraceable, hsame⟩ := ih (hl.declareOne receiver method signature)
    exact ⟨htraceable, hsame.trans (hl.countOf_declareOne hcount receiver method signature r m s)⟩

theorem Traceable.apply (hl : l.Traceable) (hcount : Additive count) {op : Op} (hop : op.ByText) (r m s : String) :
    (op.apply l).2.Traceable ∧
      (op.apply l).2.countOf count r m s = l.countOf count r m s + op.counted count r m s := by
  cases op with
  | declare receiver method signatures =>
    obtain ⟨htraceable, hsame⟩ := hl.declare hcount receiver method signatures r m s
    exact ⟨htraceable, hsame.trans (add_zero _).symm⟩
  | recordText receiver method signature satisfied =>
    have hrecorded := l.recordText_eq_mergeEntry receiver method hop satisfied
    have hentry : (Tally.one satisfied signature).signature ≠ "" := hop
    unfold Op.apply
    rw [Prod.map_snd, id, hrecorded]
    exact ⟨hl.mergeEntry (i := 0) rfl (.inr hentry), hl.countOf_mergeEntry hcount (.inr hentry) r m s⟩
  | indexOf | recordIndex | merge => exact hop.elim

/-! ## Plans -/

/-- A way to come to a ledger: operations, and merges of ledgers that came about so. -/
inductive Plan where
  | start
  | step (plan : Plan) (op : Op)
  | merge (plan other : Plan)

namespace Plan

/-- The ledger that a plan ends with. -/
def ledger : Plan → Ledger
  | start => empty
  | step plan op => (op.apply plan.ledger).2
  | merge plan other => plan.ledger.merge other.ledger

/-- The operations on all ledgers of a plan. -/
def ops : Plan → List Op
  | start => []
  | step plan op => plan.ops ++ [op]
  | merge plan other => plan.ops ++ other.ops

/-- The plan that has all operations on one ledger. -/
def inOne (ops : List Op) : Plan := ops.foldl step start

theorem ledger_inOne (ops : List Op) : (inOne ops).ledger = empty.after ops := by
  induction ops using List.reverseRecOn with
  | nil => rfl
  | append_singleton ops op ih =>
    rw [after_append, ← ih, inOne, List.foldl_append]
    rfl

theorem ops_inOne (all : List Op) : (inOne all).ops = all := by
  induction all using List.reverseRecOn with
  | nil => rfl
  | append_singleton all op ih =>
    rw [inOne, List.foldl_append]
    exact congrArg (· ++ [op]) ih

/-- What counts for a text in the end is what the operations count for it, on whichever ledger. -/
theorem countOf_ledger {plan : Plan} (hops : ∀ op ∈ plan.ops, op.ByText) (hcount : Additive count) (r m s : String) :
    plan.ledger.Traceable ∧
      plan.ledger.countOf count r m s = (plan.ops.map (Op.counted count r m s)).sum := by
  induction plan with
  | start => exact ⟨traceable_empty, rfl⟩
  | step plan op ih =>
    obtain ⟨htraceable, hsum⟩ := ih fun o ho => hops o (List.mem_append_left _ ho)
    obtain ⟨hafter, hstep⟩ := htraceable.apply hcount (hops op (by simp [ops])) r m s
    exact ⟨hafter, by rw [ledger, hstep, hsum]; simp [ops]⟩
  | merge plan other ih ihother =>
    obtain ⟨htraceable, hsum⟩ := ih fun o ho => hops o (List.mem_append_left _ ho)
    obtain ⟨hother, hsumother⟩ := ihother fun o ho => hops o (List.mem_append_right _ ho)
    obtain ⟨hmerged, hboth⟩ := htraceable.merge hother hcount r m s
    exact ⟨hmerged, by rw [ledger, hboth, hsum, hsumother]; simp [ops]⟩

/-- It does not matter how the operations are split over ledgers, and in what order these are merged. -/
theorem countOf_ledger_eq {plan : Plan} {all : List Op} (hall : ∀ op ∈ all, op.ByText) (hsplit : plan.ops.Perm all)
    (hcount : Additive count) (r m s : String) :
    plan.ledger.countOf count r m s = (empty.after all).countOf count r m s := by
  have hone : ∀ op ∈ (inOne all).ops, op.ByText := by
    rw [ops_inOne]
    exact hall
  rw [(countOf_ledger (fun op hop => hall op (hsplit.mem_iff.1 hop)) hcount r m s).2, ← ledger_inOne,
    (countOf_ledger hone hcount r m s).2, ops_inOne, (hsplit.map _).sum_eq]

end Plan

/-! ## Texts of merged ledgers -/

/-- The texts of a method with one more, if it is new and not empty. -/
def learn (known : List (Option String)) (text : Option String) : List (Option String) :=
  if text = some "" ∨ text ∈ known then known else known ++ [text]

theorem foldl_learn {texts : List (Option String)} (hnodup : texts.Nodup) (known : List (Option String)) :
    texts.foldl learn known = known ++ texts.filter fun text => text ≠ some "" ∧ text ∉ known := by
  induction texts generalizing known with
  | nil => simp
  | cons text texts ih =>
    obtain ⟨hnew, hnodup⟩ := List.nodup_cons.1 hnodup
    rw [List.foldl_cons, ih hnodup, learn]
    by_cases hskip : text = some "" ∨ text ∈ known
    · rw [if_pos hskip, List.filter_cons_of_neg (by simpa [or_iff_not_imp_left] using hskip)]
    · have hothers : (texts.filter fun t => t ≠ some "" ∧ t ∉ known ++ [text]) =
          texts.filter fun t => t ≠ some "" ∧ t ∉ known := by
        refine List.filter_congr fun t ht => ?_
        have hne : t ≠ text := fun heq => hnew (heq ▸ ht)
        simp [hne]
      rw [if_neg hskip, hothers, List.filter_cons_of_pos (by simpa [not_or] using hskip), List.append_assoc]
      rfl

theorem textsOf_mergeEntry (l : Ledger) (e : LedgerKey × Tally) (r m : String) :
    (l.mergeEntry e).textsOf r m =
      if e.1.receiver = r ∧ e.1.method = m then learn (l.textsOf r m) (some e.2.signature) else l.textsOf r m := by
  unfold mergeEntry learn
  by_cases hempty : e.2.signature = ""
  · simp [hempty, addTally]
  · rw [if_neg (by simpa using hempty)]
    dsimp only
    rw [addTally, textsOf_setTally, textsOf_indexOf]
    by_cases hhere : e.1.receiver = r ∧ e.1.method = m
    · obtain ⟨rfl, rfl⟩ := hhere
      by_cases hknown : some e.2.signature ∈ l.textsOf e.1.receiver e.1.method <;>
        simp [Dense.position?_eq_none_iff, hempty, hknown]
    · rw [if_neg hhere, if_neg fun hall => hhere ⟨hall.1, hall.2.1⟩]

theorem textsOf_foldl_mergeEntry (l : Ledger) (es : List (LedgerKey × Tally)) (r m : String) :
    (es.foldl mergeEntry l).textsOf r m =
      ((column es r m).map fun e => some e.2.signature).foldl learn (l.textsOf r m) := by
  induction es generalizing l with
  | nil => rfl
  | cons e es ih =>
    rw [List.foldl_cons, ih, textsOf_mergeEntry]
    by_cases hhere : e.1.receiver = r ∧ e.1.method = m <;> simp [column, hhere]

/-- The texts of a merged ledger: first those of the one, then the others, in the order of the other. -/
theorem textsOf_merge (l : Ledger) (hother : other.Dense) (r m : String) :
    (l.merge other).textsOf r m =
      l.textsOf r m ++ (other.textsOf r m).filter fun text => text ≠ some "" ∧ text ∉ l.textsOf r m := by
  rw [merge, textsOf_foldl_mergeEntry, hother.signatures_column, foldl_learn (hother.nodup r m)]

theorem Dense.declare (hl : l.Dense) (receiver method : String) (signatures : List String) :
    (l.declare receiver method signatures).2.Dense := by
  induction signatures generalizing l with
  | nil => exact hl
  | cons signature rest ih =>
    have hone : (l.declareOne receiver method signature).2.Dense := by
      rw [hl.declareOne_eq]
      split
      · exact hl.put rfl
      · exact hl
    exact ih hone

theorem dense_after {ops : List Op} (hops : ∀ op ∈ ops, op.ByText) : (empty.after ops).Dense := by
  induction ops using List.reverseRecOn with
  | nil => exact dense_empty
  | append_singleton ops op ih =>
    have hbefore := ih fun o ho => hops o (List.mem_append_left _ ho)
    have hop := hops op (by simp)
    rw [after_append, after_singleton]
    cases op with
    | declare r m ss => exact hbefore.declare r m ss
    | recordText r m s satisfied =>
      have hrecorded := hbefore.recordText_eq r m s satisfied
      unfold Op.apply
      exact hrecorded ▸ hbefore.enter r m _
    | indexOf | recordIndex | merge => exact hop.elim

/-- **Merging ledgers is recording in one.**  Of two ledgers filled by texts, the merged one counts for each text what
both do, and it has the texts of the first at their positions and after them, in order, those of the second that are new
and not empty.  So it does not matter over which ledgers operations are split, and in what order these are merged. -/
theorem merge_recorded {ops others : List Op} (hops : ∀ op ∈ ops, op.ByText) (hothers : ∀ op ∈ others, op.ByText) :
    (∀ receiver method text,
      ((empty.after ops).merge (empty.after others)).countOf (·.attempted) receiver method text =
        (empty.after ops).countOf (·.attempted) receiver method text +
          (empty.after others).countOf (·.attempted) receiver method text ∧
      ((empty.after ops).merge (empty.after others)).countOf (·.satisfied) receiver method text =
        (empty.after ops).countOf (·.satisfied) receiver method text +
          (empty.after others).countOf (·.satisfied) receiver method text) ∧
    (∀ receiver method text, some text ∈ ((empty.after ops).merge (empty.after others)).textsOf receiver method ↔
      some text ∈ (empty.after ops).textsOf receiver method ∨
        some text ∈ (empty.after others).textsOf receiver method ∧ text ≠ "") ∧
    (∀ receiver method text i, (empty.after ops).position? receiver method text = some i →
      ((empty.after ops).merge (empty.after others)).position? receiver method text = some i) ∧
    (∀ receiver method, ((empty.after ops).merge (empty.after others)).textsOf receiver method =
      (empty.after ops).textsOf receiver method ++ ((empty.after others).textsOf receiver method).filter fun text =>
        text ≠ some "" ∧ text ∉ (empty.after ops).textsOf receiver method) ∧
    ∀ (plan : Plan) (all : List Op), (∀ op ∈ all, op.ByText) → plan.ops.Perm all → ∀ receiver method text,
      plan.ledger.countOf (·.attempted) receiver method text =
          (empty.after all).countOf (·.attempted) receiver method text ∧
        plan.ledger.countOf (·.satisfied) receiver method text =
          (empty.after all).countOf (·.satisfied) receiver method text := by
  have htraceable {all : List Op} (hall : ∀ op ∈ all, op.ByText) : (empty.after all).Traceable := by
    rw [← Plan.ledger_inOne]
    exact (Plan.countOf_ledger (by rw [Plan.ops_inOne]; exact hall) additive_attempted "" "" "").1
  have htexts := textsOf_merge (empty.after ops) (dense_after hothers)
  refine ⟨fun r m s => ?_, fun r m s => ?_, fun r m s i hi => ?_, htexts, fun plan all hall hsplit r m s => ?_⟩
  · exact ⟨((htraceable hops).merge (htraceable hothers) additive_attempted r m s).2,
      ((htraceable hops).merge (htraceable hothers) additive_satisfied r m s).2⟩
  · rw [htexts]
    simp
    tauto
  · rw [position?] at hi ⊢
    rw [htexts, List.findIdx?_append, hi]
    rfl
  · exact ⟨Plan.countOf_ledger_eq hall hsplit additive_attempted r m s,
      Plan.countOf_ledger_eq hall hsplit additive_satisfied r m s⟩

/-- Two ledgers that have the same texts at other positions, and both the empty one. -/
def here : List Op := [.declare "R" "m" ["x", ""], .recordText "R" "m" "x" true]

def there : List Op := [.recordText "R" "m" "y" false, .declare "R" "m" [""], .recordText "R" "m" "x" false]

/-- The operations on both in the opposite order, on three ledgers of which the last two are merged first. -/
def thirds : Plan :=
  .merge (.inOne [.recordText "R" "m" "x" false])
    (.merge (.inOne [.declare "R" "m" [""], .recordText "R" "m" "y" false])
      (.inOne [.recordText "R" "m" "x" true, .declare "R" "m" ["x", ""]]))

theorem merge_recorded_thirds :
    ((∀ op ∈ here, op.ByText) ∧ (∀ op ∈ there, op.ByText) ∧ thirds.ops.Perm (here ++ there)) ∧
    ((empty.after here).merge (empty.after there)).countOf (·.attempted) "R" "m" "x" = 2 ∧
    ((empty.after here).merge (empty.after there)).textsOf "R" "m" = [some "x", some "", some "y"] ∧
    thirds.ledger.countOf (·.satisfied) "R" "m" "x" = 1 := by
  have hhere : ∀ op ∈ here, op.ByText := by decide
  have hthere : ∀ op ∈ there, op.ByText := by decide
  have hall : ∀ op ∈ here ++ there, op.ByText := by decide
  have hsplit : thirds.ops.Perm (here ++ there) := List.reverse_perm (here ++ there)
  obtain ⟨hcounts, -, -, htexts, hplans⟩ := merge_recorded hhere hthere
  refine ⟨⟨hhere, hthere, hsplit⟩, (hcounts "R" "m" "x").1.trans ?_, (htexts "R" "m").trans ?_,
    (hplans thirds _ hall hsplit "R" "m" "x").2.trans ?_⟩
  · decide
  · decide
  · decide

/-- A merge does not take the empty text over. -/
theorem merge_drops_empty_text :
    some "" ∈ (empty.after [.declare "R" "m" [""]]).textsOf "R" "m" ∧
      some "" ∉ (empty.merge (empty.after [.declare "R" "m" [""]])).textsOf "R" "m" := by
  have hdense : (empty.after [.declare "R" "m" [""]]).Dense := dense_after (by decide)
  rw [textsOf_merge empty hdense]
  decide

end Ledger

end Conformance
