import Mathlib
import Conformance.Command

/-!
# Loading reports

A report that gives no ledger is at fault in a way that the user is told, or it ends the program.  Which documents do the
latter is said without the reader: those that are no object, those whose entries cannot be gone through, and those with
an entry that cannot be taken in after the ones before it (`LooseLedger.Overturns`).

A ledger is a loose ledger whose fields are texts and counts, and reports are loaded into both in the same way
(`Coverage.toLoose_ofEntries`).
-/

namespace Conformance

/-! ## A ledger as a loose ledger -/

theorem LooseKey.sameField_str (s t : String) : sameField (.str s) (.str t) = (s == t) := by
  simp [sameField, Value.equal, Value.core]

theorem LedgerKey.same_toLoose (a b : LedgerKey) : a.toLoose.same b.toLoose = a.same b := by
  have hindex : LooseKey.sameField a.index.toValue b.index.toValue = (a.index.toInt == b.index.toInt) := by
    cases a.index <;> cases b.index <;>
      simp [LooseKey.sameField, Index.toValue, Index.toInt, Value.equal, Value.core, Value.sameNumber, Value.extent?,
        Value.ratio?]
  simp only [LooseKey.same, toLoose, LooseKey.sameField_str, hindex, same]

namespace Ledger

variable (l : Ledger) (receiver method : String)

/-- A text as a value, where there is one. -/
def textValue (t : Option String) : Value := (t.map Value.str).getD .null

theorem any_toLoose : l.toLoose.methods.any (·.isOf (.str receiver) (.str method)) =
    l.methods.any fun m => m.receiver == receiver && m.method == method := by
  simp [toLoose, List.any_map, Function.comp_def, LooseTexts.isOf, LooseKey.sameField_str]

theorem textsOf_toLoose :
    l.toLoose.textsOf (.str receiver) (.str method) = (l.textsOf receiver method).map textValue := by
  simp only [LooseLedger.textsOf, textsOf, toLoose, List.find?_map, Function.comp_def, LooseTexts.isOf,
    LooseKey.sameField_str]
  cases l.methods.find? fun m => m.receiver == receiver && m.method == method <;> rfl

theorem setTexts_toLoose (texts : List (Option String)) :
    (l.setTexts receiver method texts).toLoose =
      l.toLoose.setTexts (.str receiver) (.str method) (texts.map textValue) := by
  unfold LooseLedger.setTexts setTexts
  rw [any_toLoose]
  dsimp only
  split
  · simp only [toLoose, List.map_map, LooseLedger.mk.injEq, true_and]
    refine List.map_congr_left fun m _ => ?_
    simp only [Function.comp_def, LooseTexts.isOf, LooseKey.sameField_str]
    split <;> rfl
  · simp [toLoose, textValue]

theorem setTally_toLoose (key : LedgerKey) (tally : Tally) :
    (l.setTally key tally).toLoose = l.toLoose.setTally key.toLoose tally.toLoose := by
  have hany : l.toLoose.entries.any (·.1.same key.toLoose) = l.entries.any (·.1.same key) := by
    simp [toLoose, List.any_map, Function.comp_def, LedgerKey.same_toLoose]
  unfold LooseLedger.setTally setTally
  rw [hany]
  split
  · simp only [toLoose, List.map_map, LooseLedger.mk.injEq, and_true]
    refine List.map_congr_left fun e _ => ?_
    simp only [Function.comp_def, LedgerKey.same_toLoose]
    split <;> rfl
  · simp [toLoose]

theorem placeText_map {α β : Type} (room : Capacity) (f : α → β) (nothing : α) (texts : List α) (position : Int)
    (text : α) : placeText room (f nothing) (texts.map f) position (f text) =
      (placeText room nothing texts position text).map (·.map f) := by
  unfold placeText
  simp only [List.length_map, List.length_append, List.length_replicate]
  split_ifs <;> simp [Except.map, List.map_set]

end Ledger

/-! ## Errors that end the program -/

namespace ReportError

variable {α β : Type}

/-- There is no result, and the program ends. -/
def Crashes (m : Except ReportError α) : Prop := ∃ e, m = .error e ∧ e.isReported = false

theorem not_crashes_ok (a : α) : ¬ Crashes (.ok a : Except ReportError α) := by
  rintro ⟨e, h, -⟩
  cases h

theorem not_crashes_return (a : α) : ¬ Crashes (pure a : Except ReportError α) := not_crashes_ok a

theorem crashes_error_iff (e : ReportError) : Crashes (.error e : Except ReportError α) ↔ e.isReported = false := by
  simp [Crashes]

theorem crashes_bind {m : Except ReportError α} {f : α → Except ReportError β} :
    Crashes (m >>= f) ↔ Crashes m ∨ ∃ a, m = .ok a ∧ Crashes (f a) := by
  cases m with
  | error e => simp [bind, Except.bind, crashes_error_iff]
  | ok a => simp [bind, Except.bind, not_crashes_ok]

/-- Going through a list ends the program at the first element that does. -/
theorem crashes_foldlM {f : β → α → Except ReportError β} {xs : List α} {b : β} :
    Crashes (xs.foldlM f b) ↔
      ∃ before x after mid, xs = before ++ x :: after ∧ before.foldlM f b = .ok mid ∧ Crashes (f mid x) := by
  induction xs generalizing b with
  | nil => simp [pure, Except.pure, not_crashes_ok]
  | cons y ys ih =>
    rw [List.foldlM_cons, crashes_bind]
    constructor
    · rintro (h | ⟨a, ha, h⟩)
      · exact ⟨[], y, ys, b, rfl, rfl, h⟩
      · obtain ⟨before, x, after, mid, rfl, hmid, hx⟩ := ih.1 h
        exact ⟨y :: before, x, after, mid, rfl, by rw [List.foldlM_cons, ha]; exact hmid, hx⟩
    · rintro ⟨_ | ⟨z, before⟩, x, after, mid, hsplit, hmid, hx⟩
      · cases hsplit
        cases hmid
        exact .inl hx
      · cases hsplit
        rw [List.foldlM_cons] at hmid
        cases hy : f b y with
        | error e =>
          rw [hy] at hmid
          cases hmid
        | ok a =>
          rw [hy] at hmid
          exact .inr ⟨a, rfl, ih.2 ⟨before, x, after, mid, rfl, hmid, hx⟩⟩

end ReportError

namespace LooseLedger

open Ledger ReportError

/-! ## One entry -/

/-- A document that cannot be part of a key. -/
def isCompound : Document → Bool
  | .list _ | .object _ => true
  | _ => false

/-- There is no place for a text at this position, after so many others: it is too far away, there is no room for the
texts up to it, or it counts back past the first. -/
def Unplaceable (room : Capacity) (known : Nat) (position : Int) : Prop :=
  position + 1 - known < -farthest - 1 ∨ min farthest room.texts < position + 1 - known ∨ position + known < 0

/-- Loading the entry after what has been loaded ends the program: it is no object; or its text has to be put at a place,
and there is none; or it has no text, and all counts, and cannot be found by its key. -/
def Overturns (room : Capacity) (l : LooseLedger) : Document → Prop
  | .object fields => ∃ receiver ∈ fields.lookup "receiver_type", ∃ method ∈ fields.lookup "method",
      ∃ index ∈ fields.lookup "signature_index",
      if ((fields.lookup "signature").getD (.str "")).toValue.truth = true then
        isCompound receiver = true ∨ isCompound method = true ∨
          ∀ i ∈ index? index, Unplaceable room (l.textsOf receiver.toValue method.toValue).length i.toInt
      else (fields.lookup "attempted").isSome = true ∧ (fields.lookup "satisfied").isSome = true ∧
        (isCompound receiver = true ∨ isCompound method = true ∨ isCompound index = true)
  | _ => True

theorem required_eq_ok_iff {fields : List (String × Document)} {name : String} {d : Document} :
    required fields name = .ok d ↔ fields.lookup name = some d := by
  cases h : fields.lookup name <;> simp [required, h]

theorem not_crashes_required (fields : List (String × Document)) (name : String) : ¬ Crashes (required fields name) := by
  cases h : fields.lookup name <;> simp [required, h, not_crashes_ok, crashes_error_iff, isReported]

theorem requireHashable_cons (d : Document) (vs : List Value) :
    requireHashable (d.toValue :: vs) =
      if isCompound d = true then .error (.unhashable (kindOf d)) else requireHashable vs := by
  cases d <;> rfl

theorem crashes_requireHashable_cons {d : Document} {vs : List Value} :
    Crashes (requireHashable (d.toValue :: vs)) ↔ isCompound d = true ∨ Crashes (requireHashable vs) := by
  rw [requireHashable_cons]
  split <;> simp_all [crashes_error_iff, isReported]

theorem not_crashes_requireHashable_nil : ¬ Crashes (requireHashable []) := not_crashes_ok ()

theorem positionOf_cases (d : Document) :
    (∃ i, index? d = some i ∧ d.toValue = i.toValue ∧ isCompound d = false ∧ positionOf d.toValue = .ok i.toInt) ∨
      index? d = none ∧ Crashes (positionOf d.toValue) := by
  cases d with
  | bool b => exact .inl ⟨.truth b, rfl, rfl, rfl, by cases b <;> rfl⟩
  | int n =>
    refine .inl ⟨.number n, rfl, rfl, rfl, ?_⟩
    change Except.ok (n + 1 - 1) = _
    rw [Int.add_sub_cancel]
    rfl
  | _ => exact .inr ⟨rfl, _, rfl, rfl⟩

theorem placeText_cases {α : Type} (room : Capacity) (nothing : α) (texts : List α) (position : Int) (text : α) :
    (¬ Unplaceable room texts.length position ∧ ∃ placed, placeText room nothing texts position text = .ok placed) ∨
      Unplaceable room texts.length position ∧ Crashes (placeText room nothing texts position text) := by
  unfold placeText Unplaceable
  simp only [Bool.or_eq_true, decide_eq_true_eq, List.length_append, List.length_replicate]
  split_ifs with hfar hroom hpos hplace hplace
  all_goals first
    | exact .inr ⟨by omega, _, rfl, rfl⟩
    | exact .inl ⟨by omega, _, rfl⟩

theorem crashes_loadEntry_iff (room : Capacity) (l : LooseLedger) (d : Document) :
    Crashes (l.loadEntry room d) ↔ l.Overturns room d := by
  cases d with
  | object fields =>
    simp only [loadEntry, loadFields, Overturns, crashes_bind, not_crashes_required, required_eq_ok_iff, false_or, Option.mem_def]
    refine exists_congr fun receiver => and_congr_right fun _ => exists_congr fun method => and_congr_right fun _ =>
      exists_congr fun index => and_congr_right fun _ => ?_
    cases htext : ((fields.lookup "signature").getD (.str "")).toValue.truth with
    | false =>
      simp only [Bool.not_false, Bool.false_eq_true, if_true, if_false, pure_bind, crashes_bind, not_crashes_required,
        required_eq_ok_iff, false_or, crashes_requireHashable_cons, not_crashes_requireHashable_nil, or_false,
        not_crashes_return, and_false, exists_false, exists_and_right, Option.isSome_iff_exists]
    | true =>
      simp only [Bool.not_true, Bool.false_eq_true, if_true, if_false, pure_bind, crashes_bind, not_crashes_required,
        required_eq_ok_iff, false_or, crashes_requireHashable_cons, not_crashes_requireHashable_nil, or_false,
        not_crashes_return, and_false, exists_false]
      cases hr : isCompound receiver
      · cases hm : isCompound method
        · have hhashable : requireHashable [receiver.toValue, method.toValue] = .ok () := by
            simp only [requireHashable_cons, hr, hm, Bool.false_eq_true, if_false]
            rfl
          obtain ⟨i, hi, -, hplain, hposition⟩ | ⟨hnone, hposition⟩ := positionOf_cases index
          · obtain ⟨hplaceable, placed, hplaced⟩ | ⟨hunplaceable, hcrashes⟩ := placeText_cases room Value.null
              (l.textsOf receiver.toValue method.toValue) i.toInt ((fields.lookup "signature").getD (.str "")).toValue
            · simp [hhashable, hi, hposition, hplain, hplaced, hplaceable, not_crashes_ok]
            · simp [hhashable, hi, hposition, hcrashes, hunplaceable]
          · simp [hhashable, hnone, hposition]
        · simp
      · simp
  | _ => exact ⟨fun _ => trivial, fun _ => ⟨_, rfl, rfl⟩⟩

end LooseLedger

namespace Ledger

theorem loadEntry_toLoose (room : Capacity) (l : Ledger) {d : Document} {e : LedgerKey × Tally} (h : entry? d = some e) :
    LooseLedger.loadEntry room l.toLoose d = (l.loadEntry room e).map toLoose := by
  unfold entry? at h
  split at h
  · simp only [Option.bind_eq_bind, Option.bind_eq_some_iff, Option.pure_def, Option.some.injEq] at h
    obtain ⟨dr, hdr, r, hr, dm, hdm, m, hm, di, hdi, i, hi, s, hs, da, hda, a, ha, dc, hdc, c, hc, rfl⟩ := h
    have hstr : ∀ {d : Document} {t : String}, text? d = some t → d = .str t := by
      intro d t h
      cases d <;> cases h
      rfl
    have hint : ∀ {d : Document} {n : Int}, count? d = some n → d = .int n := by
      intro d n h
      cases d <;> cases h
      rfl
    obtain rfl := hstr hr
    obtain rfl := hstr hm
    obtain rfl := hint ha
    obtain rfl := hint hc
    obtain ⟨j, hj, hvalue, hplain, hplace⟩ | ⟨hnone, -⟩ := LooseLedger.positionOf_cases di
    · cases hi.symm.trans hj
      have hhashable : LooseLedger.requireHashable [.str r, .str m] = .ok () := rfl
      have hfound : LooseLedger.requireHashable [.str r, .str m, i.toValue] = .ok () := by cases i <;> rfl
      have hplaced := placeText_map room textValue none (l.textsOf r m) i.toInt (some s)
      simp only [LooseLedger.loadEntry, LooseLedger.loadFields, required, hdr, hdm, hdi, hda, hdc, hstr hs,
        Option.elim_some, loadEntry, bind, Except.bind, pure, Except.pure, Document.toValue, hvalue, hfound]
      rw [hvalue] at hplace
      cases hempty : s.isEmpty with
      | true =>
        have htruth : (Value.str s).truth = false := by simp [Value.truth, Value.core, hempty]
        simp only [htruth, Bool.not_false, if_true, Except.map, setTally_toLoose]
        rfl
      | false =>
        have htruth : (Value.str s).truth = true := by simp [Value.truth, Value.core, hempty]
        simp only [htruth, hhashable, hplace, textsOf_toLoose, Bool.not_true, Bool.false_eq_true, if_false]
        change Except.bind (placeText room (textValue none) _ _ (textValue (some s))) _ = _
        rw [hplaced]
        cases placeText room none (l.textsOf r m) i.toInt (some s) with
        | error e => rfl
        | ok texts =>
          simp only [Except.map, setTally_toLoose, setTexts_toLoose]
          rfl
    · cases hi.symm.trans hnone
  · cases h

theorem foldlM_toLoose {items : List Document} {entries : List (LedgerKey × Tally)}
    (h : items.mapM entry? = some entries) (room : Capacity) (l : Ledger) :
    items.foldlM (LooseLedger.loadEntry room) l.toLoose = (entries.foldlM (loadEntry room) l).map toLoose := by
  induction items generalizing entries l with
  | nil =>
    cases h
    rfl
  | cons d ds ih =>
    simp only [List.mapM_cons, Option.bind_eq_bind, Option.bind_eq_some_iff, Option.pure_def, Option.some.injEq] at h
    obtain ⟨e, he, es, hes, rfl⟩ := h
    rw [List.foldlM_cons, List.foldlM_cons, l.loadEntry_toLoose room he]
    cases l.loadEntry room e with
    | error e => rfl
    | ok l' => exact ih hes l'

end Ledger

/-! ## Whole reports -/

namespace Coverage

open ReportError

/-- Entries are loaded as they are into a loose ledger. -/
theorem toLoose_ofEntries (room : Capacity) (items : List Document) :
    (ofEntries room items).map toLoose = items.foldlM (LooseLedger.loadEntry room) {} := by
  unfold ofEntries
  split
  · rename_i entries h
    rw [show ({} : LooseLedger) = Ledger.toLoose .empty from rfl, Ledger.foldlM_toLoose h]
    cases entries.foldlM (Ledger.loadEntry room) .empty <;> rfl
  · cases items.foldlM (LooseLedger.loadEntry room) {} <;> rfl

/-- A document that cannot be gone through: no list, no object and no text. -/
def isScalar : Document → Bool
  | .list _ | .object _ | .str _ => false
  | _ => true

/-- Loading the document ends the program: it is no object; or it is of the right version, and its entries cannot be gone
through, or there is one among them that ends it. -/
def Fatal (room : Capacity) : Document → Prop
  | .object fields => ((fields.lookup "version").getD .null).toValue.equal (.int reportVersion) = true ∧
      ∃ d ∈ fields.lookup "entries", isScalar d = true ∨ ∃ before entry after l,
        itemsOf d = .ok (before ++ entry :: after) ∧ before.foldlM (LooseLedger.loadEntry room) {} = .ok l ∧
          l.Overturns room entry
  | _ => True

theorem crashes_ofEntries_iff (room : Capacity) (items : List Document) :
    Crashes (ofEntries room items) ↔ ∃ before entry after l, items = before ++ entry :: after ∧
      before.foldlM (LooseLedger.loadEntry room) {} = .ok l ∧ l.Overturns room entry := by
  have hmap : Crashes (ofEntries room items) ↔ Crashes ((ofEntries room items).map toLoose) := by
    cases ofEntries room items <;> simp [Crashes, Except.map]
  rw [hmap, toLoose_ofEntries, crashes_foldlM]
  simp only [LooseLedger.crashes_loadEntry_iff]

theorem crashes_itemsOf_iff (d : Document) : Crashes (itemsOf d) ↔ isScalar d = true := by
  cases d <;> simp [itemsOf, isScalar, not_crashes_ok, crashes_error_iff, isReported]

theorem crashes_ofDocument_iff (room : Capacity) (d : Document) : Crashes (ofDocument room d) ↔ Fatal room d := by
  cases d with
  | object fields =>
    unfold ofDocument Fatal
    dsimp only
    split
    · rename_i hversion
      simp_all [crashes_error_iff, isReported]
    · rename_i hversion
      simp only [crashes_bind, LooseLedger.not_crashes_required, LooseLedger.required_eq_ok_iff, crashes_itemsOf_iff,
        crashes_ofEntries_iff, false_or, Option.mem_def]
      simp_all
  | _ => exact ⟨fun _ => trivial, fun _ => ⟨_, rfl, rfl⟩⟩

theorem code_cannotRead (shown : String) (e : ReportError) : (Command.cannotRead shown e).code = 1 := by
  unfold Command.cannotRead
  dsimp only
  split <;> rfl

/-- A report ends the program exactly if it is nested too deep to be read, or if the document that it holds is fatal.
The command that shows reports tells every other error to the user. -/
theorem load_crashes_iff (contents : String) (room : Capacity) :
    (Crashes (load contents room) ↔
      Document.read room.depth (String.ofList (unifyLines contents.toList)) = .error .tooDeep ∨
        ∃ d, Document.read room.depth (String.ofList (unifyLines contents.toList)) = .ok d ∧ Fatal room d) ∧
    ∀ (s : Command.Surroundings) (missing : Bool) (path : String) (e : ReportError), s.files path = some contents →
      s.room = room → load contents room = .error e → (Command.coverage s missing path).code = 1 ∧
        Command.coverage s missing path =
          if e.isReported then Command.cannotRead (Command.shownPath path).1 e else .crashed (.report e) := by
  constructor
  · unfold load
    dsimp only
    cases Document.read room.depth (String.ofList (unifyLines contents.toList)) with
    | error e => cases e <;> simp [crashes_error_iff, isReported]
    | ok d => simp [crashes_ofDocument_iff]
  · rintro s missing path e hfile rfl he
    have htold : Command.coverage s missing path =
        if e.isReported then Command.cannotRead (Command.shownPath path).1 e else .crashed (.report e) := by
      rw [Command.coverage, hfile]
      dsimp only
      rw [he]
    refine ⟨?_, htold⟩
    rw [htold]
    split
    · exact code_cannotRead _ e
    · rfl

theorem load_crashes_list : Crashes (load "[]") :=
  (load_crashes_iff "[]" {}).1.2 (.inr ⟨.list [], by cbv, trivial⟩)

end Coverage

end Conformance
