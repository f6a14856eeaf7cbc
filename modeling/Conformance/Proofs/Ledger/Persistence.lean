import Mathlib
import Conformance.Ledger.Report
import Conformance.Proofs.Ledger.Dense
import Conformance.Proofs.Ledger.History

/-!
# A report of a ledger stands for the ledger

A report holds the entries in order, and not the texts of the methods: these are put together again from the
entries.  In a `Legible` ledger, one that was filled by texts that are not empty, that gives the same texts
(`Legible.load`), for in order of their keys the entries of a method are those of its first text, its second text,
and so on (`Legible.index_eq`).

What was loaded has its entries in another order than the ledger had.  `Alike` leaves out that order, and no
operation can tell alike ledgers apart (`Alike.apply`), so neither can a list of them (`Alike.trace`).
-/

namespace Conformance

namespace Ledger

variable {l l' : Ledger} {receiver method signature : String} {e : LedgerKey × Tally} {es : List (LedgerKey × Tally)}
  {room : Capacity}

/-! ## Alike ledgers -/

/-- Two ledgers have the same tallies under the same keys, and the same texts at the same positions. -/
structure Alike (l l' : Ledger) : Prop where
  distinct : l.Distinct
  entries : l.entries.Perm l'.entries
  texts : ∀ receiver method, l.textsOf receiver method = l'.textsOf receiver method

namespace Alike

section

variable (h : l.Alike l')
include h

theorem tally? (key : LedgerKey) : l.tally? key = l'.tally? key :=
  tally?_eq_of_perm h.distinct h.entries key

theorem position? (receiver method signature : String) :
    l.position? receiver method signature = l'.position? receiver method signature := by
  rw [Ledger.position?, Ledger.position?, h.texts]

theorem indexOf_fst (receiver method signature : String) :
    (l.indexOf receiver method signature).1 = (l'.indexOf receiver method signature).1 := by
  unfold Ledger.indexOf
  rw [h.texts]
  dsimp only
  split <;> rfl

theorem indexOf (receiver method signature : String) :
    (l.indexOf receiver method signature).2.Alike (l'.indexOf receiver method signature).2 where
  distinct := h.distinct.indexOf receiver method signature
  entries := by
    rw [entries_indexOf, entries_indexOf]
    exact h.entries
  texts r m := by rw [textsOf_indexOf, textsOf_indexOf, h.position?, h.texts]

theorem setTally (key : LedgerKey) (t : Tally) :
    (l.setTally key t).Alike (l'.setTally key t) where
  distinct := h.distinct.setTally key t
  entries := by
    unfold Ledger.setTally
    rw [h.entries.any_eq]
    split
    · exact h.entries.map _
    · exact h.entries.append_right _
  texts r m := by rw [textsOf_setTally, textsOf_setTally, h.texts]

theorem addTally (key : LedgerKey) (t : Tally) :
    (l.addTally key t).Alike (l'.addTally key t) := by
  rw [Ledger.addTally, Ledger.addTally, h.tally?]
  exact h.setTally key _

theorem declareOne (receiver method signature : String) :
    (l.declareOne receiver method signature).1 = (l'.declareOne receiver method signature).1 ∧
      (l.declareOne receiver method signature).2.Alike (l'.declareOne receiver method signature).2 := by
  have hafter := h.indexOf receiver method signature
  unfold Ledger.declareOne
  dsimp only
  rw [h.indexOf_fst, hafter.tally?]
  refine ⟨rfl, ?_⟩
  split
  · exact hafter
  · exact hafter.setTally _ _

theorem declare (receiver method : String) (signatures : List String) :
    (l.declare receiver method signatures).1 = (l'.declare receiver method signatures).1 ∧
      (l.declare receiver method signatures).2.Alike (l'.declare receiver method signatures).2 := by
  induction signatures generalizing l l' with
  | nil => exact ⟨rfl, h⟩
  | cons signature rest ih =>
    obtain ⟨hkey, hone⟩ := h.declareOne receiver method signature
    obtain ⟨hkeys, hrest⟩ := ih hone
    unfold Ledger.declare
    exact ⟨congrArg₂ List.cons hkey hkeys, hrest⟩

theorem recordText (receiver method signature : String) (satisfied : Bool) :
    (l.recordText receiver method signature satisfied).1 = (l'.recordText receiver method signature satisfied).1 ∧
      (l.recordText receiver method signature satisfied).2.Alike
        (l'.recordText receiver method signature satisfied).2 := by
  unfold Ledger.recordText
  dsimp only
  rw [h.indexOf_fst]
  exact ⟨rfl, (h.indexOf receiver method signature).addTally _ _⟩

theorem mergeEntry (e : LedgerKey × Tally) : (l.mergeEntry e).Alike (l'.mergeEntry e) := by
  unfold Ledger.mergeEntry
  dsimp only
  split
  · exact h.addTally e.1 e.2
  · rw [h.indexOf_fst]
    exact (h.indexOf _ _ _).addTally _ _

theorem foldl_mergeEntry (es : List (LedgerKey × Tally)) :
    (es.foldl Ledger.mergeEntry l).Alike (es.foldl Ledger.mergeEntry l') := by
  induction es generalizing l l' with
  | nil => exact h
  | cons e es ih => exact ih (h.mergeEntry e)

theorem merge {other other' : Ledger} (hother : other.Alike other') :
    (l.merge other).Alike (l'.merge other') := by
  rw [Ledger.merge, Ledger.merge, sorted_eq_of_perm hother.distinct hother.entries]
  exact h.foldl_mergeEntry other'.sorted

theorem unexercised : l.unexercised = l'.unexercised :=
  unexercised_eq_of_perm h.distinct h.entries

theorem totals : l.totals = l'.totals := totals_eq_of_perm h.entries

end

end Alike

/-- The text that an attempt at a position is recorded with. -/
def textAt? (known : List (Option String)) (index : Index) : Option String :=
  if index.toInt < known.length then (elementAt? known index.toInt).map (·.getD "") else some ""

theorem recordIndex?_eq (l : Ledger) (receiver method : String) (index : Index) (satisfied : Bool) :
    l.recordIndex? receiver method index satisfied =
      (textAt? (l.textsOf receiver method) index).map fun text =>
        (⟨receiver, method, index⟩, l.addTally ⟨receiver, method, index⟩ (.one satisfied text)) := by
  unfold recordIndex? textAt?
  dsimp only
  split
  · rw [Option.map_map]
    rfl
  · rfl

/-- The same operation, up to what is merged: alike ledgers. -/
inductive Op.Alike : Op → Op → Prop
  | refl (op : Op) : Op.Alike op op
  | merge {other other' : Ledger} (h : other.Alike other') : Op.Alike (.merge other) (.merge other')

/-- An operation answers alike ledgers alike, and leaves them alike. -/
theorem Alike.apply (h : l.Alike l') {op op' : Op} (hop : op.Alike op') :
    (op.apply l).1 = (op'.apply l').1 ∧ (op.apply l).2.Alike (op'.apply l').2 := by
  cases hop with
  | merge hother =>
    exact ⟨rfl, h.merge hother⟩
  | refl op =>
    cases op with
    | indexOf r m s => exact ⟨congrArg Answer.position (h.indexOf_fst r m s), h.indexOf r m s⟩
    | declare r m ss =>
      obtain ⟨hkeys, hafter⟩ := h.declare r m ss
      exact ⟨congrArg Answer.keys hkeys, hafter⟩
    | recordText r m s satisfied =>
      obtain ⟨hkey, hafter⟩ := h.recordText r m s satisfied
      exact ⟨congrArg (fun k => Answer.keys [k]) hkey, hafter⟩
    | recordIndex r m index satisfied =>
      simp only [Op.apply, recordIndex?_eq, h.texts]
      cases textAt? (l'.textsOf r m) index with
      | none => exact ⟨rfl, h⟩
      | some text => exact ⟨rfl, h.addTally _ _⟩
    | merge other => exact ⟨rfl, h.foldl_mergeEntry other.sorted⟩

/-- What can be told of two ledgers, with the answers that came with them, is the same. -/
structure SameView (a b : Answer × Ledger) : Prop where
  answer : a.1 = b.1
  alike : a.2.Alike b.2
  unexercised : a.2.unexercised = b.2.unexercised
  totals : a.2.totals = b.2.totals

theorem Alike.trace (h : l.Alike l') {ops ops' : List Op} (hops : List.Forall₂ Op.Alike ops ops') :
    List.Forall₂ SameView (l.trace ops) (l'.trace ops') := by
  induction hops generalizing l l' with
  | nil => exact .nil
  | cons hop _ ih =>
    obtain ⟨hanswer, hafter⟩ := h.apply hop
    exact .cons ⟨hanswer, hafter, hafter.unexercised, hafter.totals⟩ (ih hafter)

/-! ## Ledgers filled by texts -/

/-- The ledger is dense, and no text of it is empty. -/
structure Legible (l : Ledger) : Prop extends Dense l where
  titled : ∀ receiver method, some "" ∉ l.textsOf receiver method

theorem legible_empty : empty.Legible := ⟨dense_empty, fun _ _ h => nomatch h⟩

namespace Legible

theorem signature_ne (hl : l.Legible) (he : e ∈ l.entries) : e.2.signature ≠ "" := by
  obtain ⟨i, -, htext⟩ := hl.listed e he
  intro hempty
  rw [hempty] at htext
  exact hl.titled _ _ (List.mem_of_getElem? htext)

theorem put (hl : l.Legible) {t : Tally} (ht : t.signature = signature) (hsignature : signature ≠ "") :
    (l.put receiver method signature t).Legible where
  toDense := hl.toDense.put ht
  titled r m := by
    rw [textsOf_put]
    split
    · simpa [hsignature.symm] using hl.titled r m
    · exact hl.titled r m

theorem declareOne (hl : l.Legible) (hsignature : signature ≠ "") :
    (l.declareOne receiver method signature).2.Legible := by
  rw [hl.declareOne_eq]
  split
  · exact hl.put rfl hsignature
  · exact hl

theorem declare (hl : l.Legible) {signatures : List String} (hsignatures : ∀ s ∈ signatures, s ≠ "") :
    (l.declare receiver method signatures).2.Legible := by
  induction signatures generalizing l with
  | nil => exact hl
  | cons signature rest ih =>
    have hone : (l.declareOne receiver method signature).2.Legible := hl.declareOne (hsignatures _ (by simp))
    exact ih hone fun s hs => hsignatures s (by simp [hs])

theorem enter (hl : l.Legible) {t : Tally} (ht : t.signature ≠ "") : (l.enter receiver method t).Legible where
  toDense := hl.toDense.enter receiver method t
  titled := by
    intro r m
    rw [Ledger.enter, textsOf_put]
    split
    · simpa [ht.symm] using hl.titled r m
    · exact hl.titled r m

theorem foldl_mergeEntry (hl : l.Legible) (hes : ∀ e ∈ es, e.2.signature ≠ "") :
    (es.foldl Ledger.mergeEntry l).Legible := by
  induction es generalizing l with
  | nil => exact hl
  | cons e es ih =>
    have hone : (l.mergeEntry e).Legible := by
      rw [hl.mergeEntry_eq (hes e (by simp))]
      exact hl.enter (hes e (by simp))
    exact ih hone fun f hf => hes f (by simp [hf])

theorem merge (hl : l.Legible) {other : Ledger} (hother : other.Legible) : (l.merge other).Legible :=
  hl.foldl_mergeEntry fun _ he => hother.signature_ne (other.sorted_perm.mem_iff.1 he)

end Legible

/-- The operations that fill a ledger by texts that are not empty, merges apart. -/
def Op.Textual : Op → Prop
  | declare _ _ signatures => ∀ s ∈ signatures, s ≠ ""
  | recordText _ _ signature _ => signature ≠ ""
  | _ => False

instance : DecidablePred Op.Textual
  | .declare _ _ signatures => inferInstanceAs (Decidable (∀ s ∈ signatures, s ≠ ""))
  | .recordText _ _ signature _ => inferInstanceAs (Decidable (signature ≠ ""))
  | .indexOf .. | .recordIndex .. | .merge _ => isFalse id

theorem History.legible {ops : List Op} (h : History Op.Textual ops) : (empty.after ops).Legible := by
  induction h with
  | nil => exact legible_empty
  | @step ops op _ hop ih =>
    rw [after_append, after_singleton]
    cases op with
    | declare r m ss => exact ih.declare hop
    | recordText r m s satisfied =>
      have hrecorded := ih.recordText_eq r m s satisfied
      unfold Op.apply
      exact hrecorded ▸ ih.enter hop
    | indexOf | recordIndex | merge => exact hop.elim
  | merge _ _ ih ihothers =>
    rw [after_append, after_singleton]
    exact ih.merge ihothers

/-! ## Loading -/

/-- The entries of one method among others, in their order. -/
def column (es : List (LedgerKey × Tally)) (receiver method : String) : List (LedgerKey × Tally) :=
  es.filter fun e => e.1.receiver == receiver && e.1.method == method

theorem mem_column : e ∈ column es receiver method ↔ e ∈ es ∧ e.1.receiver = receiver ∧ e.1.method = method := by
  simp [column]

theorem column_append (es fs : List (LedgerKey × Tally)) (receiver method : String) :
    column (es ++ fs) receiver method = column es receiver method ++ column fs receiver method :=
  List.filter_append _ _

theorem Dense.mem_places_column (hl : l.Dense) (place : String ×ₗ String ×ₗ Int) :
    place ∈ (column l.sorted receiver method).map (·.1.place) ↔
      ∃ i < (l.textsOf receiver method).length, LedgerKey.place ⟨receiver, method, .number i⟩ = place := by
  rw [List.mem_map]
  constructor
  · rintro ⟨⟨⟨r, m, index⟩, t⟩, he, rfl⟩
    obtain ⟨hentry, rfl, rfl⟩ := mem_column.1 he
    obtain ⟨i, hi, htext⟩ := hl.listed _ (l.sorted_perm.mem_iff.1 hentry)
    exact ⟨i, (List.getElem?_eq_some_iff.1 htext).1, by rw [← hi]⟩
  · rintro ⟨i, hi, rfl⟩
    cases hat : (l.textsOf receiver method)[i] with
    | none => exact absurd (hat ▸ List.getElem_mem hi) (hl.known receiver method)
    | some text =>
      obtain ⟨t, ht⟩ := hl.entered receiver method i text (List.getElem?_eq_some_iff.2 ⟨hi, hat⟩)
      exact ⟨_, mem_column.2 ⟨l.sorted_perm.mem_iff.2 (hl.mem_of_tally? ht).1, rfl, rfl⟩, rfl⟩

/-- In order, the entries of a method are those of its texts from the first one on. -/
theorem Dense.places_column (hl : l.Dense) (receiver method : String) :
    (column l.sorted receiver method).map (·.1.place) =
      (List.range (l.textsOf receiver method).length).map fun i : Nat =>
        LedgerKey.place ⟨receiver, method, .number i⟩ := by
  -- both sides are in strict order, so it is enough that they have the same members
  have hcolumn : ((column l.sorted receiver method).map (·.1.place)).Pairwise (· < ·) :=
    hl.distinct.places_sorted.sublist (List.filter_sublist.map _)
  have hrange : ((List.range (l.textsOf receiver method).length).map fun i : Nat =>
      LedgerKey.place ⟨receiver, method, .number i⟩).Pairwise (· < ·) := by
    rw [List.pairwise_map]
    refine List.pairwise_lt_range.imp fun {i j} hij => ?_
    simpa [LedgerKey.place, Index.toInt, Prod.Lex.toLex_lt_toLex] using hij
  refine hcolumn.eq_of_mem_iff hrange fun place => ?_
  simp [hl.mem_places_column]

/-- The entry of a method at a position in order is the one of the text at that position. -/
theorem Dense.getElem?_column (hl : l.Dense) {i : Nat} (he : (column l.sorted receiver method)[i]? = some e) :
    e.1 = ⟨receiver, method, .number i⟩ ∧ (l.textsOf receiver method)[i]? = some (some e.2.signature) := by
  have hentry : e ∈ l.entries := l.sorted_perm.mem_iff.1 (mem_column.1 (List.mem_of_getElem? he)).1
  have hplace : e.1.place = LedgerKey.place ⟨receiver, method, .number i⟩ := by
    have hhere := congrArg (·[i]?) (hl.places_column receiver method)
    simp only [List.getElem?_map, he, Option.map_some] at hhere
    obtain ⟨j, hj, hj'⟩ := Option.map_eq_some_iff.1 hhere.symm
    obtain ⟨hlt, hij⟩ := List.getElem?_eq_some_iff.1 hj
    rw [← hj', ← hij, List.getElem_range]
  have ht := hl.mem_of_tally? (hl.distinct.tally?_of_mem hentry hplace)
  have hsame := List.inj_on_of_nodup_map hl.distinct hentry ht.1 hplace
  exact ⟨congrArg Prod.fst hsame, ht.2⟩

/-- Each entry has as its position how many entries of its method come before it. -/
theorem Dense.index_eq (hl : l.Dense) {before after : List (LedgerKey × Tally)}
    (hsplit : l.sorted = before ++ e :: after) :
    e.1.index = .number (column before e.1.receiver e.1.method).length := by
  have he : (column l.sorted e.1.receiver e.1.method)[(column before e.1.receiver e.1.method).length]? = some e := by
    rw [hsplit, column_append, List.getElem?_append_right (le_refl _)]
    simp [column]
  exact congrArg LedgerKey.index (hl.getElem?_column he).1

/-- The entries of a method carry its texts. -/
theorem Dense.signatures_column (hl : l.Dense) (receiver method : String) :
    ((column l.sorted receiver method).map fun e => some e.2.signature) = l.textsOf receiver method := by
  have hlength : (column l.sorted receiver method).length = (l.textsOf receiver method).length := by
    simpa using congrArg List.length (hl.places_column receiver method)
  apply List.ext_getElem?
  intro i
  rw [List.getElem?_map]
  cases he : (column l.sorted receiver method)[i]? with
  | none =>
    rw [List.getElem?_eq_none_iff] at he
    rw [List.getElem?_eq_none (by omega)]
    rfl
  | some e => exact (hl.getElem?_column he).2.symm

/-- What came out of entries: these entries, and the texts that they carry. -/
structure Loaded (l : Ledger) (es : List (LedgerKey × Tally)) : Prop where
  entries : l.entries = es
  texts : ∀ receiver method,
    l.textsOf receiver method = (column es receiver method).map fun e => some e.2.signature

theorem loaded_empty : Loaded empty [] := ⟨rfl, fun _ _ => rfl⟩

/-- A text put at the first position that is free comes last. -/
theorem placeText_length {α : Type} (room : Capacity) (nothing : α) (texts : List α) (text : α) :
    placeText room nothing texts texts.length text = .ok (texts ++ [text]) := by
  unfold placeText
  have hmore : (texts.length : Int) + 1 - texts.length = 1 := by omega
  rw [hmore]
  simp [farthest, Int.not_lt.2 room.one_le]

theorem Loaded.loadEntry (h : Loaded l es) (habsent : e.1.place ∉ es.map (·.1.place))
    (hindex : e.1.index = .number (column es e.1.receiver e.1.method).length) (hsignature : e.2.signature ≠ "") :
    ∃ l', l.loadEntry room e = .ok l' ∧ Loaded l' (es ++ [e]) := by
  have htexts := h.texts e.1.receiver e.1.method
  have hplaced : placeText room none (l.textsOf e.1.receiver e.1.method) e.1.index.toInt (some e.2.signature) =
      .ok (l.textsOf e.1.receiver e.1.method ++ [some e.2.signature]) := by
    have hlength : e.1.index.toInt = (l.textsOf e.1.receiver e.1.method).length := by
      simp [htexts, hindex, Index.toInt]
    rw [hlength]
    exact placeText_length room none _ _
  refine ⟨_, by simp [Ledger.loadEntry, hsignature, hplaced]; rfl, ?_, ?_⟩
  · rw [setTally_of_absent]
    · simp [h.entries]
    · simpa [places, h.entries] using habsent
  · intro r m
    rw [textsOf_setTally, textsOf_setTexts, column_append, List.map_append, ← h.texts]
    split
    · rename_i hhere
      obtain ⟨rfl, rfl⟩ := hhere
      simp [column]
    · rename_i hother
      have hnone : column [e] r m = [] := by simpa [column] using hother
      simp [hnone]

theorem Legible.foldlM_loadEntry (hl : l.Legible) {k : Ledger} {before after : List (LedgerKey × Tally)}
    (hsplit : l.sorted = before ++ after) (hk : Loaded k before) :
    ∃ l', after.foldlM (Ledger.loadEntry room) k = .ok l' ∧ Loaded l' l.sorted := by
  induction after generalizing k before with
  | nil =>
    rw [hsplit, List.append_nil]
    exact ⟨k, rfl, hk⟩
  | cons e after ih =>
    have hplaces := hl.distinct.places_sorted
    have habsent : e.1.place ∉ before.map (·.1.place) := by
      intro hmem
      rw [hsplit, List.map_append, List.pairwise_append] at hplaces
      exact lt_irrefl _ (hplaces.2.2 _ hmem _ (by simp))
    have hentry : e ∈ l.entries := l.sorted_perm.mem_iff.1 (by simp [hsplit])
    obtain ⟨k', hk', hloaded⟩ := hk.loadEntry habsent (hl.index_eq hsplit) (hl.signature_ne hentry)
    obtain ⟨l', hl', hrest⟩ := ih (by simp [hsplit]) hloaded
    refine ⟨l', ?_, hrest⟩
    rw [List.foldlM_cons, hk']
    exact hl'

/-! ## Reports -/

theorem entry?_entryDocument (e : LedgerKey × Tally) : entry? (entryDocument e) = some e := by
  obtain ⟨⟨receiver, method, index⟩, attempted, satisfied, signature⟩ := e
  cases index <;> rfl

theorem mapM_entry?_entryDocument (es : List (LedgerKey × Tally)) :
    (es.map entryDocument).mapM entry? = some es := by
  induction es with
  | nil => rfl
  | cons e es ih => simp [entry?_entryDocument, ih]

/-- The report of a legible ledger gives an alike one. -/
theorem Legible.load (hl : l.Legible) :
    ∃ l', Coverage.ofDocument room l.toDocument = .ok (.strict l') ∧ l.Alike l' := by
  obtain ⟨l', hl', hloaded⟩ := hl.foldlM_loadEntry (List.nil_append l.sorted).symm loaded_empty
  refine ⟨l', ?_, hl.distinct, ?_, ?_⟩
  · have hentries : Coverage.ofEntries room l.entryDocuments = .ok (.strict l') := by
      rw [Coverage.ofEntries, entryDocuments, mapM_entry?_entryDocument]
      exact congrArg (Functor.map Coverage.strict) hl'
    have hversion : (Document.int reportVersion).toValue.equal (.int reportVersion) = true := by cbv
    have hfield : required [("version", .int reportVersion), ("entries", .list l.entryDocuments)] "entries" =
        .ok (.list l.entryDocuments) := rfl
    rw [← hentries, toDocument, Coverage.ofDocument]
    simp only [List.lookup, Option.getD_some, beq_self_eq_true, hversion, hfield]
    rfl
  · rw [hloaded.entries]
    exact l.sorted_perm.symm
  · intro r m
    rw [hloaded.texts, hl.signatures_column]

/-- **A report stands for its ledger.**  The report of a ledger that was filled by texts, none of them empty, is
read back, and what comes out has the same tallies under the same keys and the same texts at the same positions.
So whatever is done with both from then on, also if each is merged into itself, both give the same answers, the
same overloads that nothing has satisfied, and the same sums, at every step. -/
theorem report_alike {ops : List Op} (h : History Op.Textual ops) (room : Capacity) :
    ∃ l', Coverage.ofDocument room (empty.after ops).toDocument = .ok (.strict l') ∧
      (Document.read room.depth (String.ofList (Coverage.unifyLines (empty.after ops).dump.toList)) =
          .ok (empty.after ops).toDocument → Coverage.load (empty.after ops).dump room = .ok (.strict l')) ∧
      (empty.after ops).Alike l' ∧
      ∀ more more', List.Forall₂ Op.Alike more more' →
        List.Forall₂ SameView ((empty.after ops).trace more) (l'.trace more') := by
  obtain ⟨l', hloaded, halike⟩ := h.legible.load
  refine ⟨l', hloaded, fun hread => ?_, halike, fun _ _ hmore => halike.trace hmore⟩
  rw [Coverage.load, hread]
  exact hloaded

/-- Operations on two methods, in another order than that of their keys. -/
def filled : List Op :=
  [.declare "S" "n" ["b"], .recordText "R" "m" "y" true, .declare "R" "m" ["x", "y"]]

theorem history_filled : History Op.Textual filled := .of_forall (by decide)

/-- What the report gives may stand for the ledger also where the ledger is merged into itself. -/
theorem report_alike_filled :
    History Op.Textual (filled ++ [.merge (empty.after filled)]) ∧
    ∃ l', Coverage.ofDocument {} (empty.after (filled ++ [.merge (empty.after filled)])).toDocument =
        .ok (.strict l') ∧
      ((empty.after (filled ++ [.merge (empty.after filled)])).merge
        (empty.after (filled ++ [.merge (empty.after filled)]))).totals = (l'.merge l').totals := by
  have hfilled : History Op.Textual (filled ++ [.merge (empty.after filled)]) :=
    .merge history_filled history_filled
  obtain ⟨l', hloaded, -, halike, htrace⟩ := report_alike hfilled {}
  refine ⟨hfilled, l', hloaded, ?_⟩
  have hself := htrace [.merge _] [.merge l'] (.cons (.merge halike) .nil)
  cases hself with
  | cons hview => exact hview.totals

/-- The empty text has a position, but a report does not tell which: it is that of the next text. -/
theorem report_drops_empty_text :
    ∃ l', Coverage.ofDocument {} (empty.declare "R" "m" [""]).2.toDocument = .ok (.strict l') ∧
      ((empty.declare "R" "m" [""]).2.indexOf "R" "m" "x").1 = 1 ∧ (l'.indexOf "R" "m" "x").1 = 0 := by
  refine ⟨{ entries := [(⟨"R", "m", .number 0⟩, {})] }, by cbv, ?_, ?_⟩
  · decide
  · decide

end Ledger

end Conformance
