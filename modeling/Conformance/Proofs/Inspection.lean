import Conformance.Proofs.BuiltIn
import Conformance.Proofs.Law

/-!
# Looking into built-in values

A program may run code of its own when it is asked for the elements, the size, the keys or the written form of a
value, or compares it with another.  Where the value is built in, it does not: the answer is read off the value,
and the state of the program stays as it is (`Run.Quiet`).  Much of it cannot fail either (`Run.Answers`), or fails only
under a condition (`Run.Settles`, `Run.Shows`).
-/

namespace Conformance

variable {vs : List Value}

namespace Run

variable {α β : Type} {w : World} {m : Run α} {Q : α → Prop} {R : β → Prop}

/-! ## Computations that change nothing -/

/-- The computation leaves the state as it is, and what it gives has the property. -/
def Quiet (w : World) (m : Run α) (Q : α → Prop) : Prop :=
  (m.run.run w).2 = w ∧ ∀ a, (m.run.run w).1 = .ok a → Q a

/-- The computation leaves the state as it is. -/
abbrev Still (w : World) (m : Run α) : Prop := Quiet w m fun _ => True

theorem quiet_of_run {a : α} (h : m.run.run w = (.ok a, w)) (ha : Q a) : Quiet w m Q := by
  rw [Quiet, h]
  refine ⟨rfl, fun b hb => ?_⟩
  cases hb
  exact ha

theorem quiet_pure {a : α} (ha : Q a) : Quiet w (pure a : Run α) Q := quiet_of_run rfl ha

theorem quiet_throw (r : Raised) : Quiet w (throw r : Run α) Q := ⟨rfl, fun _ h => nomatch h⟩

theorem Quiet.bind {f : α → Run β} (hm : Quiet w m Q) (hf : ∀ a, Q a → Quiet w (f a) R) :
    Quiet w (m >>= f) R := by
  obtain ⟨hstate, hresult⟩ := hm
  rw [Quiet, run_bind]
  rcases hr : m.run.run w with ⟨r | a, w'⟩
  · rw [hr] at hstate
    exact ⟨hstate, fun _ hb => nomatch hb⟩
  · rw [hr] at hstate hresult
    have ha := hf a (hresult a rfl)
    rw [show w' = w from hstate]
    exact ha

theorem quiet_get_bind {f : World → Run β} (h : Quiet w (f w) R) : Quiet w (get >>= f) R := by
  have hget : Quiet w (get : Run World) (· = w) := quiet_of_run rfl rfl
  refine hget.bind fun a ha => ?_
  rw [ha]
  exact h

theorem run_tryCatch (m : Run α) (handler : Raised → Run α) (w : World) :
    (MonadExcept.tryCatch m handler).run.run w =
      match m.run.run w with
      | (.ok a, w') => (.ok a, w')
      | (.error r, w') => (handler r).run.run w' := by
  change (ExceptT.tryCatch m handler).run.run w = _
  simp only [ExceptT.tryCatch, ExceptT.run_mk, StateT.run_bind]
  change ((m.run.run w) >>= _ : Id _) = _
  rcases m.run.run w with ⟨_ | _, _⟩ <;> rfl

theorem Quiet.tryCatch {handler : Raised → Run α} (hm : Quiet w m Q)
    (hhandler : ∀ r, Quiet w (handler r) Q) : Quiet w (MonadExcept.tryCatch m handler) Q := by
  obtain ⟨hstate, hresult⟩ := hm
  rw [Quiet, run_tryCatch]
  rcases hr : m.run.run w with ⟨r | a, w'⟩
  · rw [hr] at hstate
    rw [show w' = w from hstate]
    exact hhandler r
  · rw [hr] at hstate hresult
    exact ⟨hstate, hresult⟩

theorem Quiet.ite {c : Prop} [Decidable c] {n : Run α} (hm : Quiet w m Q) (hn : Quiet w n Q) :
    Quiet w (if c then m else n) Q := by
  split
  · exact hm
  · exact hn

/-! ## Computations that cannot fail -/

/-- The computation gives something that has the property, and leaves the state as it is. -/
def Answers (w : World) (m : Run α) (Q : α → Prop) : Prop := ∃ a, m.run.run w = (.ok a, w) ∧ Q a

theorem Answers.quiet (hm : Answers w m Q) : Quiet w m Q := by
  obtain ⟨a, hrun, ha⟩ := hm
  exact quiet_of_run hrun ha

theorem answers_pure {a : α} (ha : Q a) : Answers w (pure a : Run α) Q := ⟨a, rfl, ha⟩

theorem Answers.bind {f : α → Run β} (hm : Answers w m Q) (hf : ∀ a, Q a → Answers w (f a) R) :
    Answers w (m >>= f) R := by
  obtain ⟨a, hrun, ha⟩ := hm
  obtain ⟨b, hrest, hb⟩ := hf a ha
  refine ⟨b, ?_, hb⟩
  rw [run_bind, hrun]
  exact hrest

/-! ## Computations that may fail -/

/-- The computation leaves the state as it is, and what it gives has the property.  Where this is sure, it gives
something. -/
def Settles (w : World) (sure : Prop) (m : Run α) (Q : α → Prop) : Prop :=
  Quiet w m Q ∧ (sure → ∃ a, (m.run.run w).1 = .ok a)

section Settles

variable {sure : Prop}

theorem Settles.answers (hm : Settles w sure m Q) (hsure : sure) : Answers w m Q := by
  obtain ⟨⟨hstate, hresult⟩, hgives⟩ := hm
  obtain ⟨a, ha⟩ := hgives hsure
  exact ⟨a, Prod.ext ha hstate, hresult a ha⟩

theorem settles_of_run {a : α} (h : m.run.run w = (.ok a, w)) (ha : Q a) : Settles w sure m Q :=
  ⟨quiet_of_run h ha, fun _ => ⟨a, by rw [h]⟩⟩

theorem settles_pure {a : α} (ha : Q a) : Settles w sure (pure a : Run α) Q := settles_of_run rfl ha

theorem settles_throw (h : ¬ sure) (r : Raised) : Settles w sure (throw r : Run α) Q :=
  ⟨quiet_throw r, fun hsure => absurd hsure h⟩

theorem Settles.mono {R : α → Prop} (hm : Settles w sure m Q) (h : ∀ a, Q a → R a) : Settles w sure m R :=
  ⟨⟨hm.1.1, fun a ha => h a (hm.1.2 a ha)⟩, hm.2⟩

theorem Settles.told (hm : Settles w sure m Q) : Settles w sure m fun a => m.run.run w = (.ok a, w) ∧ Q a :=
  ⟨⟨hm.1.1, fun a ha => ⟨Prod.ext ha hm.1.1, hm.1.2 a ha⟩⟩, hm.2⟩

theorem Settles.bind {f : α → Run β} (hm : Settles w sure m Q) (hf : ∀ a, Q a → Settles w sure (f a) R) :
    Settles w sure (m >>= f) R := by
  refine ⟨hm.1.bind fun a ha => (hf a ha).1, fun hsure => ?_⟩
  obtain ⟨b, hrun, -⟩ := (hm.answers hsure).bind fun a ha => (hf a ha).answers hsure
  exact ⟨b, by rw [hrun]⟩

theorem settles_get_bind {f : World → Run β} (h : Settles w sure (f w) R) : Settles w sure (get >>= f) R := by
  have hget : Settles w sure (get : Run World) (· = w) := settles_of_run rfl rfl
  refine hget.bind fun a ha => ?_
  rw [ha]
  exact h

theorem Settles.ite {c : Prop} [Decidable c] {n : Run α} (hm : Settles w sure m Q) (hn : Settles w sure n Q) :
    Settles w sure (if c then m else n) Q := by
  split
  · exact hm
  · exact hn

/-- Demands on all elements are met if each of them is. -/
theorem settles_allM {f : α → Run Bool} {xs : List α} {P : α → Prop}
    (h : ∀ x ∈ xs, Settles w sure (f x) fun b => P x → b = true) :
    Settles w sure (xs.allM f) fun b => (∀ x ∈ xs, P x) → b = true := by
  induction xs with
  | nil => exact settles_pure fun _ => rfl
  | cons x xs ih =>
    refine (h x List.mem_cons_self).bind fun b hb => ?_
    cases b with
    | false => exact settles_pure fun hP => hb (hP x List.mem_cons_self)
    | true =>
      refine (ih fun y hy => h y (List.mem_cons_of_mem x hy)).mono fun b hb hP => ?_
      exact hb fun y hy => hP y (List.mem_cons_of_mem x hy)

end Settles

/-! ## Computations that write -/

/-- The computation gives something exactly if the condition holds, and otherwise meets an integer with too many digits.
It leaves the state as it is. -/
def Shows (w : World) (m : Run α) (legible : Prop) : Prop :=
  (legible → ∃ a, m.run.run w = (.ok a, w)) ∧ (¬ legible → m.run.run w = (.error .tooManyDigits, w))

variable {P P' : Prop}

theorem Shows.congr (hm : Shows w m P) (h : P ↔ P') : Shows w m P' := by rwa [Shows, ← h]

theorem shows_pure (a : α) : Shows w (pure a : Run α) True := ⟨fun _ => ⟨a, rfl⟩, fun h => absurd trivial h⟩

theorem shows_of_run {a : α} {f : α → Run β} (h : m.run.run w = (.ok a, w)) (hf : Shows w (f a) P) :
    Shows w (m >>= f) P := by
  rw [Shows, run_bind, h]
  exact hf

theorem shows_get_bind {f : World → Run β} (h : Shows w (f w) P) : Shows w (get >>= f) P := shows_of_run rfl h

theorem Shows.bind {f : α → Run β} (hm : Shows w m P) (hf : ∀ a, Shows w (f a) P') : Shows w (m >>= f) (P ∧ P') := by
  by_cases h : P
  · obtain ⟨a, hrun⟩ := hm.1 h
    exact (shows_of_run hrun (hf a)).congr (by simp [h])
  · refine ⟨fun hboth => absurd hboth.1 h, fun _ => ?_⟩
    rw [run_bind, hm.2 h]

theorem Shows.map (hm : Shows w m P) (f : α → β) : Shows w (m >>= fun a => pure (f a)) P :=
  (hm.bind fun a => shows_pure (f a)).congr (by simp)

theorem Shows.still (hm : Shows w m P) : Still w m := by
  by_cases h : P
  · obtain ⟨a, hrun⟩ := hm.1 h
    exact quiet_of_run hrun trivial
  · have hrun := hm.2 h
    exact ⟨by rw [hrun], fun _ ha => by rw [hrun] at ha; cases ha⟩

end Run

namespace Value

variable {cells : Nat → Prop} {v : Value} {f : Nat → Value}

theorem BuiltIn.core_eq (hv : v.BuiltIn cells) : v.core = v := by
  cases hv with
  | atom h =>
    cases v with
    | object => exact nomatch h
    | _ => rfl
  | _ => rfl

theorem mem_substituteAll {x : Value} (h : x ∈ substituteAll f vs) : ∃ y ∈ vs, x = y.substitute f := by
  induction vs with
  | nil => exact nomatch h
  | cons y ys ih =>
    rw [substituteAll] at h
    rcases List.mem_cons.1 h with rfl | h
    · exact ⟨y, List.mem_cons_self, rfl⟩
    · obtain ⟨z, hz, rfl⟩ := ih h
      exact ⟨z, List.mem_cons_of_mem y hz, rfl⟩

theorem mem_substituteEntries {es : List (Value × Value)} {x : Value × Value} (h : x ∈ substituteEntries f es) :
    ∃ e ∈ es, x = (e.1.substitute f, e.2.substitute f) := by
  induction es with
  | nil => exact nomatch h
  | cons e es ih =>
    rw [substituteEntries] at h
    rcases List.mem_cons.1 h with rfl | h
    · exact ⟨e, List.mem_cons_self, rfl⟩
    · obtain ⟨d, hd, rfl⟩ := ih h
      exact ⟨d, List.mem_cons_of_mem e hd, rfl⟩

/-- A built-in value stays one when what its cells hold is put in their place. -/
theorem BuiltIn.substitute {others : Nat → Prop} (hv : v.BuiltIn cells) (hf : ∀ i, cells i → (f i).BuiltIn others) :
    (v.substitute f).BuiltIn others := by
  induction hv with
  | @atom v h =>
    cases v with
    | sequence | mapping | iterator | error | standIn | object | cell | block | traced => exact nomatch h
    | _ => exact .atom h
  | sequence hkind _ ih =>
    refine .sequence hkind fun x hx => ?_
    obtain ⟨y, hy, rfl⟩ := mem_substituteAll hx
    exact ih y hy
  | mapping hkind _ _ ihkeys ihvalues =>
    refine .mapping hkind (fun x hx => ?_) fun x hx => ?_
    · obtain ⟨e, he, rfl⟩ := mem_substituteEntries hx
      exact ihkeys e he
    · obtain ⟨e, he, rfl⟩ := mem_substituteEntries hx
      exact ihvalues e he
  | iterator hkind _ ih =>
    refine .iterator hkind fun x hx => ?_
    obtain ⟨y, hy, rfl⟩ := mem_substituteAll hx
    exact ih y hy
  | error hc _ ih =>
    refine .error hc fun x hx => ?_
    obtain ⟨y, hy, rfl⟩ := mem_substituteAll hx
    exact ih y hy
  | cell hi => exact hf _ hi

theorem BuiltIn.entries {kind : MappingKind} {entries : List (Value × Value)}
    (hv : (Value.mapping kind entries).BuiltIn cells) :
    ∀ e ∈ entries, e.1.BuiltIn cells ∧ e.2.BuiltIn cells := by
  cases hv with
  | atom h => exact nomatch h
  | mapping _ hkeys hvalues => exact fun e he => ⟨hkeys e he, hvalues e he⟩

/-! ## Integers in values -/

mutual

/-- The integers that a native value is written with. -/
def numerals : Value → List Int
  | int n => [n]
  | fraction num den => [num, den]
  | range start stop step => rangeNumbers start stop step
  | sequence _ items => numeralsAll items
  | mapping _ entries => numeralsOf entries
  | error _ args => numeralsAll args
  | _ => []

/-- The integers that native values are written with. -/
def numeralsAll : List Value → List Int
  | [] => []
  | v :: vs => v.numerals ++ numeralsAll vs

/-- The integers that native entries are written with. -/
def numeralsOf : List (Value × Value) → List Int
  | [] => []
  | (k, v) :: es => k.numerals ++ v.numerals ++ numeralsOf es

end

/-- None of the integers that the value is written with has too many digits. -/
def Legible (v : Value) : Prop := ∀ n ∈ v.numerals, Text.isWritable n = true

theorem forall_numeralsAll : (∀ n ∈ numeralsAll vs, Text.isWritable n = true) ↔ ∀ x ∈ vs, x.Legible := by
  induction vs with
  | nil => simp [numeralsAll]
  | cons v vs ih => simp [numeralsAll, or_imp, forall_and, ih, Legible]

theorem legible_sequence {kind : SequenceKind} : (sequence kind vs).Legible ↔ ∀ x ∈ vs, x.Legible := by
  rw [Legible, numerals, forall_numeralsAll]

theorem legible_error {c : ClassId} : (error c vs).Legible ↔ ∀ x ∈ vs, x.Legible := by
  rw [Legible, numerals, forall_numeralsAll]

theorem legible_mapping {kind : MappingKind} {entries : List (Value × Value)} :
    (mapping kind entries).Legible ↔ ∀ e ∈ entries, e.1.Legible ∧ e.2.Legible := by
  rw [Legible, numerals]
  induction entries with
  | nil => simp [numeralsOf]
  | cons e es ih =>
    rw [List.forall_mem_cons, ← ih]
    simp only [numeralsOf, List.mem_append, or_imp, forall_and, Legible]

end Value

namespace World

variable {w : World} {cells : Nat → Prop}

theorem BuiltIn.contents (hw : w.BuiltIn cells) (depth : Nat) {i : Nat} (hi : cells i) :
    (w.contents depth i).BuiltIn fun _ => True := by
  induction depth generalizing i with
  | zero => exact .cell trivial
  | succ depth ih => exact (hw i hi).1.substitute fun j hj => ih hj

theorem BuiltIn.view (hw : w.BuiltIn cells) {v : Value} (hv : v.BuiltIn cells) :
    (w.view v).BuiltIn fun _ => True :=
  hv.substitute fun _ hi => hw.contents _ hi

end World

namespace Program

open Run

variable {p : Program} {w : World} {cells : Nat → Prop} {v : Value} {call : Caller} {name : String}
  {found : Attribute} {keys : List Value}

/-! ## Methods of native classes -/

theorem run_special? (p : Program) (v : Value) (name : String) (w : World) :
    (p.special? v name).run.run w
      = (.ok ((p.classAttribute? (w.resolve v) name).map (·.withReceiver v)), w) := rfl

theorem Separate.classAttribute?_eq_native (hp : p.Separate) (hv : v.BuiltIn cells) (hname : name ≠ "__hash__")
    (h : (p.member? v.classOf name).isSome = true) :
    ∃ owner, p.member? v.classOf name = some (.native owner)
      ∧ p.classAttribute? v name = some (.native owner name v) := by
  obtain ⟨found, hfound⟩ := Option.isSome_iff_exists.1 h
  obtain ⟨owner, rfl⟩ := hp.exists_native (Value.isNative_classOf hv) hname hfound
  refine ⟨owner, hfound, ?_⟩
  rw [classAttribute?, hfound]

theorem Separate.run_special?_native (hp : p.Separate) (hv : v.BuiltIn cells) (hcell : v.isCell = false)
    (hname : name ∈ NativeClass.consulted ∧ name ≠ "__hash__")
    (h : (({} : Program).member? v.classOf name).isSome = true) :
    ∃ owner, (p.special? v name).run.run w = (.ok (some (.native owner name v)), w) := by
  rw [← hp.member?_eq (Value.isNative_classOf hv) hname.1] at h
  obtain ⟨owner, -, hattribute⟩ := hp.classAttribute?_eq_native hv hname.2 h
  refine ⟨owner, ?_⟩
  rw [run_special?, World.resolve_of_isCell hcell, hattribute]
  rfl

theorem Separate.run_special?_unknown (hp : p.Separate) (hw : w.BuiltIn cells) (hv : v.BuiltIn cells)
    (hname : name ∈ NativeClass.unknownMethods) : (p.special? v name).run.run w = (.ok none, w) := by
  have hnone := hp.member?_eq_none (Value.isNative_classOf (hw.resolve hv).1) hname
  rw [run_special?, classAttribute?, hnone]
  rfl

/-! ## Elements and size -/

theorem run_nativeFeed (hv : v.BuiltIn cells) (honce : v.isOneShot = false) {items : List Value}
    (hitems : v.items? = some items) : (nativeFeed v).run.run w = (.ok (.known items), w) := by
  cases hv with
  | atom h =>
    cases v with
    | str | bytes | range =>
      cases hitems
      rfl
    | sequence | mapping | iterator => exact nomatch h
    | _ => exact nomatch hitems
  | sequence =>
    cases hitems
    rfl
  | @mapping kind entries hkind =>
    cases kind with
    | toHash => exact absurd rfl hkind
    | _ =>
      cases hitems
      rfl
  | iterator => exact nomatch honce
  | error => exact nomatch hitems
  | cell => exact nomatch hitems

/-- The elements of a built-in collection are there to be read. -/
theorem Separate.run_feed (hp : p.Separate) (hv : v.BuiltIn cells) (hcell : v.isCell = false)
    (honce : v.isOneShot = false) (hiter : (({} : Program).member? v.classOf "__iter__").isSome = true)
    {items : List Value} (hitems : v.items? = some items) :
    (p.feed call v).run.run w = (.ok (.known items), w) := by
  obtain ⟨owner, hspecial⟩ := hp.run_special?_native (w := w) hv hcell (by decide) hiter
  rw [feed, run_bind, hspecial]
  exact run_nativeFeed hv honce hitems

theorem Separate.run_size (hp : p.Separate) (hv : v.BuiltIn cells) (hcell : v.isCell = false)
    (hlen : (({} : Program).member? v.classOf "__len__").isSome = true) :
    (p.size call v).run.run w = (.ok (nativeSize v), w) := by
  obtain ⟨owner, hspecial⟩ := hp.run_special?_native (w := w) hv hcell (by decide) hlen
  rw [size, run_bind, hspecial]
  change (Except.ok (nativeSize (w.resolve v)), w) = _
  rw [World.resolve_of_isCell hcell]

theorem run_ask (h : p.attribute? (w.resolve v) name = some found) :
    (p.ask call v name).run.run w = (.ok (some (found.withReceiver v)), w) := by
  rw [ask, run_bind, run_get]
  simp only [h]
  rfl

theorem Separate.withReceiver_classAttribute? (hp : p.Separate) (hv : v.BuiltIn cells)
    (h : p.classAttribute? v name = some found) : found.withReceiver v = found := by
  unfold classAttribute? at h
  split at h
  · rename_i owner m hmember
    obtain ⟨-, _, hfound⟩ | ⟨-, hfound⟩ := hp.member?_cases (Value.isNative_classOf hv) hmember
    · exact nomatch hfound
    · exact nomatch hfound
  all_goals cases h
  · rfl
  · rfl

/-- What a built-in value gives for a name has the value itself as its receiver, if it has one. -/
theorem Separate.withReceiver_attribute? (hp : p.Separate) (hv : v.BuiltIn cells)
    (h : p.attribute? v name = some found) : found.withReceiver v = found := by
  unfold attribute? at h
  split at h
  · cases hv with
    | atom hatom => exact nomatch hatom
  · rename_i c
    split at h
    · rename_i owner m hmember
      cases h
      cases m with
      | value u => rfl
      | method kind formals code => cases kind <;> rfl
    · cases h
      rfl
    · cases h
      rfl
    · exact hp.withReceiver_classAttribute? hv h
  · split at h
    · obtain ⟨a, -, rfl⟩ := Option.map_eq_some_iff.1 h
      rfl
    · split at h
      · cases h
        rfl
      · cases h
  · exact hp.withReceiver_classAttribute? hv h

/-- Asking a built-in value for a name runs no code of the program. -/
theorem Separate.run_ask_builtIn (hp : p.Separate) (hv : v.BuiltIn cells) (hcell : v.isCell = false) :
    (p.ask call v name).run.run w = (.ok (p.attribute? v name), w) := by
  have hresolve : w.resolve v = v := World.resolve_of_isCell hcell
  cases hfound : p.attribute? v name with
  | some found =>
    rw [← hresolve] at hfound
    rw [run_ask hfound, hp.withReceiver_attribute? hv (hresolve ▸ hfound)]
  | none =>
    have hgetattr := hp.member?_eq_none (Value.isNative_classOf hv) (show "__getattr__" ∈ _ by decide)
    rw [ask, run_bind, run_get]
    simp only [hresolve, hfound, hgetattr]
    rfl

theorem run_endingOn {α : Type} {classes : List String} {m : Run α} {a : α} (h : m.run.run w = (.ok a, w)) :
    (p.endingOn classes m).run.run w = (.ok (some a), w) := by
  unfold endingOn
  rw [run_tryCatch]
  have hmap : (some <$> m).run.run w = (.ok (some a), w) := by
    rw [← bind_pure_comp, run_bind, h]
    rfl
  rw [hmap]

/-- Is it a native method that is not written as a script? -/
def isPlainMethod : Option Found → Bool
  | some (.native owner) => !Arity.isScripted owner
  | _ => false

theorem isPlainMethod_keys (kind : MappingKind) :
    kind ≠ .toHash → isPlainMethod (({} : Program).member? kind.classId "keys") = true := by
  cases kind <;> decide

theorem run_invoke_keys {owner : ClassId} (howner : Arity.isScripted owner = false) (kind : MappingKind)
    (entries : List (Value × Value)) :
    (p.invoke (.native owner "keys" (.mapping kind entries)) [] []).run.run w
      = (.ok (keysView kind entries), w) := by
  have harity : Arity.ofMethod owner "keys" = .nullary := by simp [Arity.ofMethod, howner]
  change (p.callNative _ owner "keys" (.mapping kind entries) false [] []).run.run w = _
  rw [callNative, harity]
  rfl

/-- The keys of a built-in mapping are there to be read. -/
theorem Separate.run_keysOf (hp : p.Separate) {kind : MappingKind} {entries : List (Value × Value)}
    (hv : (Value.mapping kind entries).BuiltIn cells) (hkind : kind ≠ .toHash) :
    (p.keysOf p.invoke (.mapping kind entries)).run.run w = (.ok (keysView kind entries), w) := by
  have hmember := NativeClass.member?_mapping kind hkind "keys" (by decide)
  have hplain := isPlainMethod_keys kind hkind
  rw [← hp.member?_eq (NativeClass.isNative_mapping kind hkind) (by decide)] at hmember hplain
  obtain ⟨owner, hfound, hattribute⟩ := hp.classAttribute?_eq_native hv (by decide) hmember
  rw [show p.member? kind.classId "keys" = some (.native owner) from hfound] at hplain
  have howner : Arity.isScripted owner = false := by simpa [isPlainMethod] using hplain
  have hfound : p.attribute? (w.resolve (.mapping kind entries)) "keys"
      = some (.native owner "keys" (.mapping kind entries)) := hattribute
  rw [keysOf, run_bind, run_ask hfound]
  exact run_invoke_keys howner kind entries

/-! ## Equality -/

section Comparison

variable (hp : p.Separate) (hw : w.BuiltIn cells)
include hp hw

theorem Separate.run_scripted?_unknown (hv : v.BuiltIn cells) (hname : name ∈ NativeClass.unknownMethods) :
    (p.scripted? v name).run.run w = (.ok none, w) := by
  rw [scripted?, run_bind, hp.run_special?_unknown hw hv hname]
  rfl

/-- Built-in values leave it to what is known natively whether they are equal. -/
theorem Separate.run_answered? {a b : Value} (ha : a.BuiltIn cells) (hb : b.BuiltIn cells)
    (native : Run (Option Value)) :
    (p.answered? call "__eq__" "__eq__" a b native native).run.run w = (firstAnswer native native).run.run w := by
  have hown := hp.run_scripted?_unknown hw ha (show "__eq__" ∈ NativeClass.unknownMethods by decide)
  have hother := hp.run_scripted?_unknown hw hb (show "__eq__" ∈ NativeClass.unknownMethods by decide)
  have hcomparison : isComparison "__eq__" = true := by decide
  rw [answered?, run_bind, run_get]
  simp only [hcomparison, Bool.or_true, if_true, run_bind, hown, hother, ite_self]

theorem Separate.settles_answered? {sure : Prop} {a b : Value} (ha : a.BuiltIn cells) (hb : b.BuiltIn cells)
    {native : Run (Option Value)} {Q : Option Value → Prop} (hnative : Settles w sure native Q) :
    Settles w sure (p.answered? call "__eq__" "__eq__" a b native native) Q := by
  rw [Settles, Quiet, hp.run_answered? hw ha hb]
  refine hnative.bind fun r hr => ?_
  split
  · exact settles_pure hr
  · exact hnative

theorem Separate.run_isTrue_bool (b : Bool) : (p.isTrue call (.bool b)).run.run w = (.ok b, w) := by
  have hatom : (Value.bool b).BuiltIn cells := .atom rfl
  have hlen : p.member? (.builtin "bool") "__len__" = none := by
    rw [hp.member?_eq (by decide) (by decide)]
    exact Option.isNone_iff_eq_none.1 (by decide)
  have hspecial : (p.special? (.bool b) "__len__").run.run w = (.ok none, w) := by
    change (Except.ok ((p.classAttribute? (.bool b) "__len__").map _), w) = _
    rw [classAttribute?, show p.member? (Value.bool b).classOf "__len__" = none from hlen]
    rfl
  rw [isTrue, run_bind, run_get]
  simp only [run_bind, hp.run_special?_unknown hw hatom (show "__bool__" ∈ NativeClass.unknownMethods by decide),
    hspecial]
  rfl

end Comparison

/-! ## Entries of mappings -/

/-- The place of a key among others, as things stand. -/
def placeNow? (p : Program) (w : World) (keys : List Value) (key : Value) : Option Nat :=
  match ((p.place? p.invoke keys key).run.run w).1 with
  | .ok place => place
  | .error _ => none

/-- What a mapping has at a key, as things stand. -/
def entryNow? (p : Program) (w : World) (entries : List (Value × Value)) (key : Value) : Option Value :=
  ((p.placeNow? w (entries.map (·.1)) key).bind fun i => entries[i]?).map (·.2)

theorem mem_of_entryNow? {entries : List (Value × Value)} {key x : Value}
    (h : p.entryNow? w entries key = some x) : ∃ e ∈ entries, e.2 = x := by
  obtain ⟨e, he, rfl⟩ := Option.map_eq_some_iff.1 h
  obtain ⟨i, -, hi⟩ := Option.bind_eq_some_iff.1 he
  exact ⟨e, List.mem_of_getElem? hi, rfl⟩

/-! ## Written forms -/

theorem Separate.run_ownForm? (hp : p.Separate) (hv : v.BuiltIn cells) :
    (p.ownForm? call v).run.run w = (.ok none, w) := by
  rw [ownForm?]
  split
  · rfl
  · rfl
  · rename_i hnative hnone
    obtain ⟨found, hfound⟩ := Option.ne_none_iff_exists'.1 hnone
    obtain ⟨owner, rfl⟩ := hp.exists_native (Value.isNative_classOf hv) (by decide) hfound
    exact absurd hfound (hnative owner)

theorem Separate.run_ownText? (hp : p.Separate) (hv : v.BuiltIn cells) :
    (p.ownText? call v).run.run w = (.ok none, w) := by
  have hnative := Value.isNative_classOf hv
  unfold ownText?
  split
  · cases hv with
    | atom h => exact nomatch h
  · split
    · rename_i m _ hfound
      obtain ⟨owner, howner⟩ := hp.exists_native hnative (by decide) hfound
      exact nomatch howner
    · rfl
  · rfl
  · rename_i hfirst hsecond hnone
    obtain ⟨found, hfound⟩ := Option.ne_none_iff_exists'.1 hnone
    obtain ⟨owner, rfl⟩ := hp.exists_native hnative (by decide) hfound
    exact absurd hfound (hsecond owner)

/-- The digits of an integer are written, unless there are too many of them. -/
theorem shows_digits (n : Int) : Shows w (digits n) (Text.isWritable n = true) := by
  unfold digits
  split
  · rename_i h
    exact ⟨fun _ => ⟨_, rfl⟩, fun hn => absurd h hn⟩
  · rename_i h
    exact ⟨fun hn => absurd hn h, fun _ => rfl⟩

theorem shows_mapM_digits (ns : List Int) : Shows w (ns.mapM digits) (∀ n ∈ ns, Text.isWritable n = true) := by
  induction ns with
  | nil => exact (shows_pure []).congr (by simp)
  | cons n ns ih =>
    rw [List.mapM_cons, List.forall_mem_cons]
    exact (shows_digits n).bind fun _ => ih.map _

section Writing

variable {writer : Value.Writer Run}

theorem shows_writtenAllBy (h : ∀ x ∈ vs, Shows w (x.writtenBy writer) x.Legible) :
    Shows w (Value.writtenAllBy writer vs) (∀ x ∈ vs, x.Legible) := by
  induction vs with
  | nil => exact (shows_pure _).congr (by simp)
  | cons x xs ih =>
    rw [Value.writtenAllBy, List.forall_mem_cons]
    exact (h x List.mem_cons_self).bind fun _ => (ih fun y hy => h y (List.mem_cons_of_mem x hy)).map _

theorem shows_writtenEntriesBy {es : List (Value × Value)}
    (h : ∀ e ∈ es, Shows w (e.1.writtenBy writer) e.1.Legible ∧ Shows w (e.2.writtenBy writer) e.2.Legible) :
    Shows w (Value.writtenEntriesBy writer es) (∀ e ∈ es, e.1.Legible ∧ e.2.Legible) := by
  induction es with
  | nil => exact (shows_pure _).congr (by simp)
  | cons e es ih =>
    obtain ⟨hkey, hvalue⟩ := h e List.mem_cons_self
    have hrest := ih fun f hf => h f (List.mem_cons_of_mem e hf)
    rw [Value.writtenEntriesBy]
    refine (hkey.bind fun _ => hvalue.bind fun _ => hrest.map _).congr ?_
    rw [List.forall_mem_cons, and_assoc]

end Writing

/-- A built-in value is written, unless an integer in it has too many digits. -/
theorem Separate.shows_writtenBy (hp : p.Separate) (hv : v.BuiltIn cells) :
    Shows w (v.writtenBy (p.writer call)) v.Legible := by
  induction hv with
  | @atom v h =>
    cases v with
    | int n => exact ((shows_digits n).map _).congr (by simp [Value.Legible, Value.numerals])
    | fraction num den =>
      refine ((shows_digits num).bind fun _ => (shows_digits den).map _).congr ?_
      simp [Value.Legible, Value.numerals]
    | range start stop step => exact (shows_mapM_digits _).map _
    | blank kind => cases kind <;> exact (shows_pure _).congr (by simp [Value.Legible, Value.numerals])
    | bytes kind => cases kind <;> exact (shows_pure _).congr (by simp [Value.Legible, Value.numerals])
    | sequence | mapping | iterator | error | standIn | block | traced | object | cell => exact nomatch h
    | _ => exact (shows_pure _).congr (by simp [Value.Legible, Value.numerals])
  | sequence _ _ ih => exact ((shows_writtenAllBy ih).map _).congr Value.legible_sequence.symm
  | mapping _ _ _ ihkeys ihvalues =>
    exact ((shows_writtenEntriesBy fun e he => ⟨ihkeys e he, ihvalues e he⟩).map _).congr Value.legible_mapping.symm
  | @error c args hc hargs ih =>
    have hown : (p.ownForm? call (.error c args)).run.run w = (.ok none, w) := hp.run_ownForm? (.error hc hargs)
    rw [Value.writtenBy]
    exact (shows_of_run hown ((shows_writtenAllBy ih).map _)).congr Value.legible_error.symm
  | iterator | cell => exact (shows_pure _).congr (by simp [Value.Legible, Value.numerals])

theorem Separate.still_writtenOr (hp : p.Separate) (hv : v.BuiltIn cells) :
    Still w (do return v.writtenOr (← v.writtenBy (p.writer call))) :=
  ((hp.shows_writtenBy hv).map _).still

theorem Separate.still_textBy (hp : p.Separate) (style : ClassId → Value.ErrorStyle) (hv : v.BuiltIn cells) :
    Still w (v.textBy style (p.writer call) (p.ownText? call)) := by
  induction hv with
  | @atom v h =>
    have hform : Still w (do return v.writtenOr (← v.writtenBy (p.writer call))) :=
      hp.still_writtenOr (.atom h : v.BuiltIn cells)
    cases v with
    | sequence | mapping | iterator | error | standIn | object | cell | block | traced => exact nomatch h
    | fraction num den =>
      refine (shows_digits num).still.bind fun _ _ => ?_
      split
      · exact quiet_pure trivial
      · exact ((shows_digits den).map _).still
    | str | decimal | date | datetime | path => exact quiet_of_run rfl trivial
    | _ => exact hform
  | sequence hkind hitems => exact hp.still_writtenOr (.sequence hkind hitems)
  | @mapping kind entries hkind hkeys hvalues =>
    cases kind with
    | mappingProxy => exact hp.still_writtenOr (.mapping (by decide) hkeys hvalues)
    | _ => exact hp.still_writtenOr (.mapping hkind hkeys hvalues)
  | iterator hkind hrest => exact hp.still_writtenOr (.iterator hkind hrest)
  | cell hi => exact hp.still_writtenOr (.cell hi)
  | @error c args hc hargs ih =>
    have hown : Quiet w (p.ownText? call (.error c args)) (· = none) :=
      quiet_of_run (hp.run_ownText? (.error hc hargs)) rfl
    match args, hown with
    | [], hown =>
      rw [Value.textBy]
      exact hown.bind fun _ _ => quiet_pure trivial
    | [a], hown =>
      rw [Value.textBy]
      refine hown.bind fun own hnone => ?_
      subst hnone
      cases style c with
      | lookup => exact hp.still_writtenOr (hargs a List.mem_cons_self)
      | _ => exact ih a List.mem_cons_self
    | number :: text :: rest, hown =>
      have hnumber := ih number List.mem_cons_self
      have htext := ih text (List.mem_cons_of_mem number List.mem_cons_self)
      rw [Value.textBy]
      refine hown.bind fun own hnone => ?_
      subst hnone
      cases style c with
      | system =>
        refine hnumber.bind fun n _ => htext.bind fun t _ => ?_
        dsimp only
        split
        · exact quiet_pure trivial
        · exact quiet_pure trivial
        · have hfile := hargs _ (List.mem_cons_of_mem number (List.mem_cons_of_mem text List.mem_cons_self))
          exact ((hp.shows_writtenBy hfile).map _).still
      | _ => exact hp.still_writtenOr (.sequence (by decide) hargs)

/-- A built-in value is shown, unless an integer in it has too many digits, and no code of the program runs for it. -/
theorem Separate.shows_shown (hp : p.Separate) (hw : w.BuiltIn cells) (hv : v.BuiltIn cells) :
    Shows w (p.shown call v) (w.view v).Legible := by
  have hshown : Shows w (p.shown? call v) (w.view v).Legible := shows_get_bind (hp.shows_writtenBy (hw.view hv))
  exact shows_get_bind (hshown.map _)

/-- Making text of a built-in value runs no code of the program. -/
theorem Separate.still_textOf (hp : p.Separate) (hw : w.BuiltIn cells) (hv : v.BuiltIn cells) :
    Still w (p.textOf call v) :=
  quiet_get_bind (hp.still_textBy p.errorStyle (hw.view hv))

end Program

end Conformance
