import Mathlib
import Conformance.Proofs.Ledger.Entries
import Conformance.Proofs.Ledger.History

/-!
# Nothing is lost in a ledger

Every operation is made of three steps: a text is given a position, an entry without counts is opened at a place
that has none, and a tally is added at a place.  `Adds l ts l'` says that `l'` comes about from `l` by such steps,
and that `ts` are the tallies added.  What holds of the three steps holds of all operations:

* `Adds.grows`: no key disappears, no count decreases, no text changes its position;
* `Adds.fair`: no more attempts succeed than are made;
* `Adds.total`: the sums change by what was added, and by nothing else.
-/

namespace Conformance

/-- No more attempts have succeeded than were made. -/
def Tally.Fair (t : Tally) : Prop := 0 ≤ t.satisfied ∧ t.satisfied ≤ t.attempted

theorem Tally.fair_fresh (signature : String) : Tally.Fair { signature } := by
  constructor <;> simp

theorem Tally.fair_one (satisfied : Bool) (signature : String) : (Tally.one satisfied signature).Fair := by
  cases satisfied <;> simp [Tally.Fair, Tally.one]

theorem Tally.Fair.add {a b : Tally} (ha : a.Fair) (hb : b.Fair) : (a.add b).Fair := by
  unfold Tally.Fair Tally.add at *
  dsimp only
  omega

namespace Ledger

/-! ## Steps -/

/-- The ledger comes about from `l` by steps that add these tallies. -/
inductive Adds (l : Ledger) : List Tally → Ledger → Prop
  | refl : Adds l [] l
  /-- A text is given a position, if it has none. -/
  | learn {ts : List Tally} {l' : Ledger} (h : Adds l ts l') (receiver method signature : String) :
      Adds l ts (l'.indexOf receiver method signature).2
  /-- An entry without counts is opened. -/
  | opened {ts : List Tally} {l' : Ledger} (h : Adds l ts l') {key : LedgerKey} (habsent : l'.tally? key = none)
      (signature : String) : Adds l ts (l'.setTally key { signature })
  | add {ts : List Tally} {l' : Ledger} (h : Adds l ts l') (key : LedgerKey) (t : Tally) :
      Adds l (ts ++ [t]) (l'.addTally key t)

variable {l l' l'' : Ledger} {ts us : List Tally}

theorem Adds.trans (h : Adds l ts l') (h' : Adds l' us l'') : Adds l (ts ++ us) l'' := by
  induction h' with
  | refl =>
    rw [List.append_nil]
    exact h
  | learn _ receiver method signature ih => exact ih.learn receiver method signature
  | opened _ habsent signature ih => exact ih.opened habsent signature
  | add _ key t ih =>
    rw [← List.append_assoc]
    exact ih.add key t

theorem Adds.distinct (h : Adds l ts l') (hl : l.Distinct) : l'.Distinct := by
  induction h with
  | refl => exact hl
  | learn _ receiver method signature ih => exact ih.indexOf receiver method signature
  | opened _ _ signature ih => exact ih.setTally _ _
  | add _ key t ih => exact ih.addTally key t

theorem Adds.total (h : Adds l ts l') (hl : l.Distinct) {count : Tally → Int} (hcount : Additive count) :
    l'.total count = l.total count + (ts.map count).sum := by
  induction h with
  | refl => simp
  | learn h receiver method signature ih => rw [total_of_entries (entries_indexOf _ _ _ _), ih]
  | @opened ts l' h key habsent signature ih =>
    have hset := total_setTally (h.distinct hl) key { signature } count
    rw [habsent, hcount.fresh] at hset
    simp only [Option.map_none, Option.getD_none] at hset
    omega
  | add h key t ih =>
    rw [total_addTally (h.distinct hl) key t hcount, ih]
    simp
    omega

/-! ## Growth -/

/-- What a later ledger keeps of an earlier one: every key, at its place among the keys; every count, or a higher
one; and every text, at its position. -/
structure Grows (l l' : Ledger) : Prop where
  keys : l.entries.map (·.1) <+: l'.entries.map (·.1)
  counts : ∀ key t, l.tally? key = some t →
    ∃ t', l'.tally? key = some t' ∧ t.attempted ≤ t'.attempted ∧ t.satisfied ≤ t'.satisfied
  texts : ∀ receiver method, l.textsOf receiver method <+: l'.textsOf receiver method

theorem Grows.refl (l : Ledger) : l.Grows l where
  keys := List.prefix_refl _
  counts _ t ht := ⟨t, ht, le_refl _, le_refl _⟩
  texts _ _ := List.prefix_refl _

theorem Grows.trans (h : l.Grows l') (h' : l'.Grows l'') : l.Grows l'' where
  keys := h.keys.trans h'.keys
  counts key t ht := by
    obtain ⟨t', ht', hattempted, hsatisfied⟩ := h.counts key t ht
    obtain ⟨t'', ht'', hattempted', hsatisfied'⟩ := h'.counts key t' ht'
    exact ⟨t'', ht'', hattempted.trans hattempted', hsatisfied.trans hsatisfied'⟩
  texts receiver method := (h.texts receiver method).trans (h'.texts receiver method)

theorem grows_indexOf (l : Ledger) (receiver method signature : String) :
    l.Grows (l.indexOf receiver method signature).2 where
  keys := by rw [entries_indexOf]
  counts key t ht := ⟨t, (tally?_of_entries (entries_indexOf _ _ _ _) key).trans ht, le_refl _, le_refl _⟩
  texts := textsOf_indexOf_prefix l receiver method signature

/-- A tally may be replaced by one with higher counts. -/
theorem grows_setTally {key : LedgerKey} {t : Tally}
    (ht : ∀ u, l.tally? key = some u → u.attempted ≤ t.attempted ∧ u.satisfied ≤ t.satisfied) :
    l.Grows (l.setTally key t) where
  keys := by
    rw [keys_setTally]
    split
    · exact List.prefix_refl _
    · exact List.prefix_append _ _
  counts k u hu := by
    rw [tally?_setTally]
    by_cases heq : key.place = k.place
    · exact ⟨t, by rw [if_pos heq], ht u ((tally?_of_place heq).trans hu)⟩
    · exact ⟨u, by rw [if_neg heq]; exact hu, le_refl _, le_refl _⟩
  texts receiver method := by rw [textsOf_setTally]

theorem Adds.grows (h : Adds l ts l') (hts : ∀ t ∈ ts, t.Fair) : l.Grows l' := by
  induction h with
  | refl => exact .refl l
  | learn _ receiver method signature ih => exact (ih hts).trans (grows_indexOf _ receiver method signature)
  | opened _ habsent signature ih =>
    refine (ih hts).trans (grows_setTally fun u hu => ?_)
    rw [habsent] at hu
    cases hu
  | add _ key t ih =>
    have ht : t.Fair := hts t (by simp)
    refine (ih fun u hu => hts u (by simp [hu])).trans (grows_setTally fun u hu => ?_)
    rw [hu]
    unfold Tally.Fair at ht
    simp only [Option.getD_some, Tally.add]
    omega

/-- A text stays at its position. -/
theorem Grows.position? (h : l.Grows l') {receiver method signature : String} {i : Nat}
    (hi : l.position? receiver method signature = some i) : l'.position? receiver method signature = some i := by
  obtain ⟨more, hmore⟩ := h.texts receiver method
  rw [Ledger.position?] at hi ⊢
  rw [← hmore, List.findIdx?_append, hi]
  rfl

/-- No more attempts have succeeded than were made, whatever the entry. -/
def Fair (l : Ledger) : Prop := ∀ key t, l.tally? key = some t → t.Fair

theorem fair_empty : empty.Fair := fun _ _ h => nomatch h

theorem Fair.setTally (hl : l.Fair) {key : LedgerKey} {t : Tally} (ht : t.Fair) : (l.setTally key t).Fair := by
  intro k u hu
  rw [tally?_setTally] at hu
  split at hu
  · cases hu
    exact ht
  · exact hl k u hu

theorem Adds.fair (h : Adds l ts l') (hts : ∀ t ∈ ts, t.Fair) (hl : l.Fair) : l'.Fair := by
  induction h with
  | refl => exact hl
  | learn _ receiver method signature ih =>
    intro key t ht
    rw [tally?_of_entries (entries_indexOf _ _ _ _)] at ht
    exact ih hts key t ht
  | opened _ _ signature ih => exact (ih hts).setTally (Tally.fair_fresh signature)
  | @add ts l' _ key t ih =>
    have hl' : l'.Fair := ih fun u hu => hts u (by simp [hu])
    refine hl'.setTally (Tally.Fair.add ?_ (hts t (by simp)))
    cases hfound : l'.tally? key with
    | none => exact Tally.fair_fresh _
    | some u => exact hl' key u hfound

theorem Fair.of_mem (hl : l.Fair) (hdistinct : l.Distinct) {e : LedgerKey × Tally} (he : e ∈ l.entries) : e.2.Fair :=
  hl e.1 e.2 (hdistinct.tally?_of_mem he rfl)

/-! ## Operations are made of steps -/

theorem adds_declareOne (l : Ledger) (receiver method signature : String) :
    Adds l [] (l.declareOne receiver method signature).2 := by
  unfold declareOne
  have hlearned : Adds l [] (l.indexOf receiver method signature).2 := Adds.refl.learn receiver method signature
  dsimp only
  split
  · exact hlearned
  · rename_i habsent
    exact hlearned.opened (by simpa using habsent) signature

theorem adds_declare (l : Ledger) (receiver method : String) (signatures : List String) :
    Adds l [] (l.declare receiver method signatures).2 := by
  induction signatures generalizing l with
  | nil => exact .refl
  | cons signature rest ih => exact (adds_declareOne l receiver method signature).trans (ih _)

theorem adds_recordText (l : Ledger) (receiver method signature : String) (satisfied : Bool) :
    Adds l [.one satisfied signature] (l.recordText receiver method signature satisfied).2 :=
  (Adds.refl.learn receiver method signature).add _ _

/-- A position that counts from the first text on is always one. -/
theorem recordIndex?_of_nonneg (l : Ledger) (receiver method : String) {index : Index} (hindex : 0 ≤ index.toInt)
    (satisfied : Bool) : ∃ text, l.recordIndex? receiver method index satisfied =
      some (⟨receiver, method, index⟩, l.addTally ⟨receiver, method, index⟩ (.one satisfied text)) := by
  unfold recordIndex?
  dsimp only
  split
  · rename_i hknown
    have hlt : index.toInt.toNat < (l.textsOf receiver method).length := by omega
    refine ⟨((l.textsOf receiver method)[index.toInt.toNat]).getD "", ?_⟩
    simp [elementAt?, hindex, List.getElem?_eq_getElem hlt]
  · exact ⟨"", rfl⟩

theorem adds_mergeEntry (l : Ledger) (e : LedgerKey × Tally) : Adds l [e.2] (l.mergeEntry e) := by
  unfold mergeEntry
  split
  · exact Adds.refl.add e.1 e.2
  · exact (Adds.refl.learn _ _ _).add _ e.2

theorem adds_foldl_mergeEntry (l : Ledger) (es : List (LedgerKey × Tally)) :
    Adds l (es.map (·.2)) (es.foldl mergeEntry l) := by
  induction es generalizing l with
  | nil => exact .refl
  | cons e es ih => exact (adds_mergeEntry l e).trans (ih _)

theorem adds_merge (l other : Ledger) : Adds l (other.sorted.map (·.2)) (l.merge other) :=
  adds_foldl_mergeEntry l other.sorted

/-! ## What a history adds up to -/

/-- The operations that count up from the first position, merges apart. -/
def Op.Counting : Op → Prop
  | recordIndex _ _ index _ => 0 ≤ index.toInt
  | merge _ => False
  | _ => True

instance : DecidablePred Op.Counting
  | .recordIndex _ _ index _ => inferInstanceAs (Decidable (0 ≤ index.toInt))
  | .indexOf .. | .declare .. | .recordText .. => isTrue trivial
  | .merge _ => isFalse id

/-- How many attempts an operation enters. -/
def Op.attempts : Op → Int
  | indexOf .. | declare .. => 0
  | recordText .. | recordIndex .. => 1
  | merge other => other.totals.attempted

/-- How many successful attempts an operation enters. -/
def Op.successes : Op → Int
  | indexOf .. | declare .. => 0
  | recordText _ _ _ satisfied | recordIndex _ _ _ satisfied => satisfied.toInt
  | merge other => other.totals.satisfied

/-- What an operation comes to: it adds fair tallies, with as many attempts and successes as it stands for. -/
structure Op.Enters (op : Op) (l : Ledger) (ts : List Tally) : Prop where
  adds : Adds l ts (op.apply l).2
  fair : ∀ t ∈ ts, t.Fair
  attempts : (ts.map (·.attempted)).sum = op.attempts
  successes : (ts.map (·.satisfied)).sum = op.successes

theorem Op.Counting.enters {op : Op} (hop : op.Counting) (l : Ledger) : ∃ ts, op.Enters l ts := by
  cases op with
  | indexOf r m s =>
    exact ⟨[], Adds.refl.learn r m s, by simp, rfl, rfl⟩
  | declare r m ss =>
    exact ⟨[], adds_declare l r m ss, by simp, rfl, rfl⟩
  | recordText r m s satisfied =>
    refine ⟨[.one satisfied s], adds_recordText l r m s satisfied, ?_, rfl, ?_⟩
    · simpa using Tally.fair_one satisfied s
    · simp [Tally.one, Op.successes]
  | recordIndex r m index satisfied =>
    obtain ⟨text, hrecorded⟩ := recordIndex?_of_nonneg l r m hop satisfied
    refine ⟨[.one satisfied text], ?_, ?_, rfl, ?_⟩
    · simp only [Op.apply, hrecorded]
      exact Adds.refl.add _ _
    · simpa using Tally.fair_one satisfied text
    · simp [Tally.one, Op.successes]
  | merge other => exact hop.elim

theorem enters_merge {other : Ledger} (hdistinct : other.Distinct) (hfair : other.Fair) (l : Ledger) :
    (Op.merge other).Enters l (other.sorted.map (·.2)) where
  adds := adds_merge l other
  fair t ht := by
    obtain ⟨e, he, rfl⟩ := List.mem_map.1 ht
    exact hfair.of_mem hdistinct (other.sorted_perm.mem_iff.1 he)
  attempts := other.sum_sorted (·.attempted)
  successes := other.sum_sorted (·.satisfied)

/-- What a history comes to. -/
structure Accounted (ops : List Op) : Prop where
  distinct : (empty.after ops).Distinct
  fair : (empty.after ops).Fair
  attempts : (empty.after ops).total (·.attempted) = (ops.map Op.attempts).sum
  successes : (empty.after ops).total (·.satisfied) = (ops.map Op.successes).sum
  grows : ∀ before, before <+: ops → (empty.after before).Grows (empty.after ops)

theorem Accounted.enter {ops : List Op} (h : Accounted ops) {op : Op} {ts : List Tally}
    (hop : op.Enters (empty.after ops) ts) : Accounted (ops ++ [op]) := by
  have hafter : empty.after (ops ++ [op]) = (op.apply (empty.after ops)).2 := by
    rw [after_append, after_singleton]
  constructor
  · rw [hafter]
    exact hop.adds.distinct h.distinct
  · rw [hafter]
    exact hop.adds.fair hop.fair h.fair
  · rw [hafter, hop.adds.total h.distinct additive_attempted, h.attempts, hop.attempts]
    simp
  · rw [hafter, hop.adds.total h.distinct additive_satisfied, h.successes, hop.successes]
    simp
  · intro before hbefore
    rcases List.prefix_concat_iff.1 hbefore with rfl | hbefore
    · exact .refl _
    · rw [hafter]
      exact (h.grows before hbefore).trans (hop.adds.grows hop.fair)

theorem History.accounted {ops : List Op} (h : History Op.Counting ops) : Accounted ops := by
  induction h with
  | nil =>
    refine ⟨distinct_empty, fair_empty, rfl, rfl, fun before hbefore => ?_⟩
    rw [List.prefix_nil.1 hbefore]
    exact .refl _
  | step _ hop ih =>
    obtain ⟨ts, hts⟩ := hop.enters (empty.after _)
    exact ih.enter hts
  | merge _ _ ih ihothers => exact ih.enter (enters_merge ihothers.distinct ihothers.fair _)

/-- **Nothing is lost and nothing is counted twice.**  Whatever operations a ledger has gone through, it has kept
all that it held at any time before: keys, counts and the positions of texts.  No entry has more successes than
attempts, no two texts have one position, and the sums are those of what was recorded and merged. -/
theorem history_conserved {ops : List Op} (h : History Op.Counting ops) :
    (∀ before, before <+: ops → (empty.after before).Grows (empty.after ops) ∧
      ∀ receiver method text i, (empty.after before).position? receiver method text = some i →
        (empty.after ops).position? receiver method text = some i) ∧
    (∀ key t, (empty.after ops).tally? key = some t → t.satisfied ≤ t.attempted) ∧
    (∀ receiver method text text' i, (empty.after ops).position? receiver method text = some i →
      (empty.after ops).position? receiver method text' = some i → text = text') ∧
    (empty.after ops).totals.attempted = (ops.map Op.attempts).sum ∧
    (empty.after ops).totals.satisfied = (ops.map Op.successes).sum := by
  have hops := h.accounted
  refine ⟨fun before hbefore => ?_, fun key t ht => (hops.fair key t ht).2, ?_, hops.attempts, hops.successes⟩
  · exact ⟨hops.grows before hbefore, fun _ _ _ _ hi => (hops.grows before hbefore).position? hi⟩
  · intro receiver method text text' i hi hi'
    have htext := getElem?_of_position? hi
    rw [getElem?_of_position? hi'] at htext
    simpa using htext.symm

/-- Operations of every kind: a text is declared, tried and asked for, and a position has no text. -/
def tried : List Op :=
  [.declare "R" "m" ["a", "b"], .recordIndex "R" "m" (.number 5) true, .recordText "R" "m" "b" false,
    .indexOf "R" "m" "c"]

theorem history_tried : History Op.Counting tried := .of_forall (by decide)

/-- A ledger merged into itself has every count twice. -/
theorem history_conserved_tried :
    History Op.Counting (tried ++ [.merge (empty.after tried)]) ∧
    (empty.after tried).Grows (empty.after (tried ++ [.merge (empty.after tried)])) ∧
    (empty.after (tried ++ [.merge (empty.after tried)])).totals.attempted = 4 ∧
    (empty.after (tried ++ [.merge (empty.after tried)])).totals.satisfied = 2 := by
  have htried : History Op.Counting (tried ++ [.merge (empty.after tried)]) := .merge history_tried history_tried
  obtain ⟨hgrows, -, -, hattempted, hsatisfied⟩ := history_conserved htried
  refine ⟨htried, (hgrows tried (List.prefix_append _ _)).1, hattempted.trans ?_, hsatisfied.trans ?_⟩
  · decide
  · decide

end Ledger

end Conformance
