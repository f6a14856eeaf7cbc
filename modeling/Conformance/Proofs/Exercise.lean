import Conformance.Proofs.Checking
import Conformance.Proofs.Ledger.Uses

/-!
# Which overloads were exercised

Checks and refutations enter what they try in the ledger of their session.  After any number of them, the ledger
tells of just these calls (`Uses.tells`): which texts were listed, how often each was tried, and how often it was
satisfied.

A signature is entered under its label, which is the text it was read from, also where it comes out of what the
registry has kept (`Reachable.labelled`).
-/

namespace Conformance

/-! ## Labels of signatures -/

namespace Registry

/-- The empty text is no signature. -/
theorem readSignature_empty (resolve : Resolve) : (readSignature resolve "").result.toOption = none := rfl

theorem label_of_readSignature {resolve : Resolve} {text : String} {s : Signature}
    (h : (readSignature resolve text).result = .ok s) : s.label = text := by
  have htext := (readSignature_at h).1
  have hne : text ≠ "" := by
    rintro rfl
    have hempty := readSignature_empty resolve
    rw [h] at hempty
    cases hempty
  rw [Signature.label, htext, if_neg (by simpa using hne)]

/-- Every signature that is kept has the text that it is kept under as its label. -/
def Labelled (r : Registry) : Prop :=
  ∀ text kept, r.signatures.find? text = some kept → kept.node.label = text

theorem Labelled.of_signatures {r r' : Registry} (h : r.Labelled) (heq : r'.signatures = r.signatures) :
    r'.Labelled := by
  intro text kept hkept
  exact h text kept (heq ▸ hkept)

theorem signatures_of_bare {r r' : Registry} (h : r'.bare = r.bare) : r'.signatures = r.signatures := by
  change r'.bare.signatures = r.bare.signatures
  rw [h]

theorem signatures_expandAlias (r : Registry) (name : String) :
    (r.expandAlias name).2.signatures = r.signatures := by
  obtain hsame | ⟨text, after, hafter, hread⟩ := r.expandAlias_cases name
  · rw [hsame]
  · have hread' : after.signatures = r.signatures := signatures_of_bare (hafter ▸ bare_rememberAll r _)
    obtain hsame | ⟨kept, serial, -, -, hkept⟩ := hread
    · rw [hsame, hread']
    · rw [hkept]
      exact hread'

/-- A signature that is looked up has the text that it is looked up under as its label. -/
theorem Labelled.signature {r : Registry} (h : r.Labelled) (text : String) :
    (r.signature text).2.1.Labelled ∧ ∀ kept, (r.signature text).1 = .ok kept → kept.node.label = text := by
  rcases r.signature_cases text with ⟨kept, hkept, heq⟩ | ⟨e, he, hbare⟩ | ⟨kept, hok, hread, -, hbare⟩
  · rw [heq]
    refine ⟨h, fun kept' hkept' => ?_⟩
    cases hkept'
    exact h text kept hkept
  · refine ⟨h.of_signatures (signatures_of_bare hbare), fun kept hkept => ?_⟩
    rw [he] at hkept
    cases hkept
  · have hlabel := label_of_readSignature hread
    have hsignatures : (r.signature text).2.1.signatures = r.signatures.insert text kept :=
      congrArg Registry.signatures hbare
    refine ⟨fun key kept' hkept' => ?_, fun kept' hkept' => ?_⟩
    · rw [hsignatures] at hkept'
      by_cases hkey : key = text
      · subst hkey
        rw [Table.find?_insert_self] at hkept'
        cases hkept'
        exact hlabel
      · rw [Table.find?_insert_of_ne _ _ hkey] at hkept'
        exact h key kept' hkept'
    · rw [hok] at hkept'
      cases hkept'
      exact hlabel

theorem Reachable.labelled {r : Registry} (h : Reachable r) : r.Labelled := by
  induction h with
  | initial =>
    intro text kept hkept
    cases hkept
  | registerClass _ name v ih => exact ih.of_signatures rfl
  | registerInterface _ hr ih =>
    unfold Registry.registerInterface at hr
    split at hr
    · cases hr
      exact ih.of_signatures rfl
    · cases hr
  | registerAlias _ name text ih => exact ih.of_signatures rfl
  | @interface r _ name ih =>
    refine ih.of_signatures ?_
    unfold Registry.interface
    dsimp only
    split <;> exact signatures_of_bare (bare_rememberAll r [name])
  | parseType _ text typeParams ih => exact ih.of_signatures (signatures_of_bare (bare_rememberAll _ _))
  | expandAlias _ name ih => exact ih.of_signatures (signatures_expandAlias _ name)
  | resolveClass _ name ih => exact ih.of_signatures (signatures_of_bare (bare_resolveClass _ name))
  | signature _ text ih => exact (ih.signature text).1

/-- Signatures that are read have the texts they are read from as their labels. -/
theorem Reachable.signatureList {r : Registry} (h : Reachable r) (texts : List String) :
    Reachable (r.signatureList texts).2.1 ∧ ∀ ss, (r.signatureList texts).1 = .ok ss → ss.map (·.label) = texts := by
  induction texts generalizing r with
  | nil => exact ⟨h, fun ss hss => by cases hss; rfl⟩
  | cons text texts ih =>
    have hone := h.signature text
    have hlabel := (h.labelled.signature text).2
    rw [Registry.signatureList]
    generalize r.signature text = one at hone hlabel ⊢
    obtain ⟨e | kept, after, log⟩ := one
    · exact ⟨hone, fun ss hss => by cases hss⟩
    · obtain ⟨hrest, hlabels⟩ := ih hone
      dsimp only at hrest hlabels ⊢
      generalize after.signatureList texts = others at hrest hlabels ⊢
      obtain ⟨e | ss, last, more⟩ := others
      · exact ⟨hrest, fun ss hss => by cases hss⟩
      · refine ⟨hrest, fun ss' hss => ?_⟩
        cases hss
        rw [List.map_cons, hlabels ss rfl, hlabel kept rfl]

theorem Reachable.replay {r : Registry} (h : Reachable r) (events : List Event) : Reachable (r.replay events).1 := by
  induction events generalizing r with
  | nil => exact h
  | cons event rest ih =>
    cases event with
    | resolved name => exact ih (h.resolveClass name)
    | expanded name => exact ih (h.expandAlias name)
    | noted record => exact ih h

end Registry

/-! ## Attempts as they are entered -/

/-- The attempts of a resolution, in words, are those of the call. -/
theorem Tries.attempts_eq {index : Nat} {signatures : List Signature} {matched : Option Nat} {attempts : List Attempt}
    (h : Tries index signatures matched attempts) (receiver method : String) :
    attempts.map (fun a => (a.signature.label, a.failure.isNone)) =
      Use.attempts ⟨receiver, method, signatures.map (·.label), matched.map (· - index)⟩ := by
  induction h with
  | exhausted => rfl
  | hit => simp [Use.attempts, Use.hit?]
  | @miss index s rest matched attempts _ _ h ih =>
    rw [List.map_cons, ih]
    cases matched with
    | none => simp [Use.attempts, Use.hit?]
    | some k =>
      have hle := h.index_le rfl
      have hnext : k - index = k - (index + 1) + 1 := by omega
      simp [Use.attempts, Use.hit?, hnext]

namespace Session

variable {s s' : Session} {texts : List String} {receiver : Value} {method : String} {args : List Value}
  {keywords : List (String × Value)} {done : Invocation} {r : Resolution} {us : List Use}

/-- What entering a resolution comes to: the texts are listed, and then the attempts are recorded in order. -/
theorem enter_eq {signatures : List Signature} (h : Tries 0 signatures r.matched r.attempts) (i : Invocation)
    (l : Ledger) :
    enter i (signatures.map (·.label)) r l =
      (Use.attempts ⟨i.receiverText, i.method, signatures.map (·.label), r.matched⟩).foldl
        (fun l a => (l.recordText i.receiverText i.method a.1 a.2).2)
        (l.declare i.receiverText i.method (signatures.map (·.label))).2 := by
  have hlabel : r.attempts.map (fun a => ((signatures.map (·.label)).getD a.index "", a.failure.isNone)) =
      r.attempts.map fun a => (a.signature.label, a.failure.isNone) := by
    apply List.map_congr_left
    intro a ha
    have hsignature := (h.signature_of_mem ha).2
    rw [Nat.sub_zero] at hsignature
    simp [List.getD_eq_getElem?_getD, hsignature]
  have hattempts := h.attempts_eq i.receiverText i.method
  rw [← hlabel] at hattempts
  simp only [Nat.sub_zero, Option.map_id'] at hattempts
  rw [← hattempts, List.foldl_map]
  rfl

/-- What a run enters in the ledger, and that its registry stays one that can be reached. -/
theorem Ran.tells {left : World} (h : Ran s texts receiver method args keywords done left r s') (hregistry : s.registry.Reachable)
    (hs : s.ledger.Tells us) : s'.registry.Reachable ∧
      s'.ledger.Tells (us ++ [⟨(s.world.resolve receiver).receiverText, method, texts, r.matched⟩]) := by
  cases h with
  | intro hread hprepared _ _ hdone hjudged =>
    obtain ⟨hreached, hlabels⟩ := hregistry.signatureList texts
    obtain ⟨hreceiver, hmethod⟩ := Invocation.of_prepare hprepared
    refine ⟨hreached.replay _, ?_⟩
    have hentered := hs.enter ⟨(s.world.resolve receiver).receiverText, method, texts, r.matched⟩
    dsimp only
    rw [enter_eq (Context.tries_of_resolve hjudged), hlabels _ hread, hdone]
    unfold Invocation.receiverText
    rw [hreceiver, hmethod]
    exact hentered

/-! ## Sequences of calls -/

/-- What leads from a session to another: calls that were checked or refuted, with a report each, and in between
whatever leaves the ledger alone. -/
inductive Uses (s : Session) : List Use → Session → Prop
  | none : Uses s [] s
  | call {us : List Use} {mid after : Session} {texts : List String} {receiver : Value} {method : String}
      {args : List Value} {keywords : List (String × Value)} {action : Action Report} {given : Report}
      (h : Uses s us mid)
      (haction : action = check texts receiver method args keywords ∨
        action = refute texts receiver method args keywords)
      (hrun : action.run.run mid = (.ok given, after)) :
      Uses s (us ++ [⟨(mid.world.resolve receiver).receiverText, method, texts,
        given.resolution.bind (·.matched)⟩]) after
  | other {us : List Use} {mid after : Session} (h : Uses s us mid) (hledger : after.ledger = mid.ledger)
      (hregistry : after.registry.Reachable) : Uses s us after

theorem Uses.tells (h : Uses s us s') (hledger : s.ledger = .empty) (hregistry : s.registry.Reachable) :
    s'.registry.Reachable ∧ s'.ledger.Tells us := by
  induction h with
  | none =>
    rw [hledger]
    exact ⟨hregistry, Ledger.tells_nil⟩
  | call _ haction hrun ih =>
    obtain ⟨done, left, r, after, log, hran, -, hresolution, rfl⟩ := ran_of_report haction hrun
    rw [hresolution]
    exact hran.tells ih.1 ih.2
  | other _ hsame hreachable ih =>
    rw [hsame]
    exact ⟨hreachable, ih.2⟩

/-- **The ledger answers which overloads were exercised.**  After calls that were checked or refuted, from an empty
ledger on, there is one entry for each text that was listed for a method, at the position where it was first listed.
It has as many attempts as were made with the text, and as many successes as calls satisfy it.  The overloads that
nothing has satisfied are those that were listed and never satisfied, in order. -/
theorem uses_exercised {us : List Use} (h : Uses s us s') (hledger : s.ledger = .empty)
    (hregistry : s.registry.Reachable) :
    s'.ledger.entries.Nodup ∧
    (∀ e, e ∈ s'.ledger.entries ↔ ∃ receiver method text, text ∈ Use.listed us receiver method ∧
      e = Use.entryOf us receiver method text) ∧
    s'.ledger.unexercised.Pairwise (fun a b => a.place < b.place) ∧
    ∀ key, key ∈ s'.ledger.unexercised ↔ ∃ receiver method text, text ∈ Use.listed us receiver method ∧
      (∀ u ∈ us, u.isOf receiver method = true → u.hit? ≠ some text) ∧ key = Use.keyOf us receiver method text := by
  obtain ⟨-, htells⟩ := h.tells hledger hregistry
  exact ⟨htells.dense.distinct.of_map, fun _ => htells.mem_entries_iff, htells.dense.distinct.unexercised_pairwise,
    fun _ => htells.mem_unexercised_iff⟩

/-- A program with one function, which returns nothing. -/
def idle : Session where
  program := { modules := [⟨"app", [("tick", .function [] 0)]⟩], scripts := [[]] }

/-- The call is checked against two overloads. -/
def idleChecked : Except Failure Report × Session :=
  (check ["() -> Integer", "() -> nil"] (.moduleObject "app") "tick" [] []).run.run idle

/-- Then it is refuted for one of them. -/
def idleRefuted : Except Failure Report × Session :=
  (refute ["() -> Integer"] (.moduleObject "app") "tick" [] []).run.run idleChecked.2

/-- Which overload a report says is satisfied, if there is a report. -/
def matchedIn (result : Except Failure Report) : Option (Option Nat) :=
  result.toOption.map fun given => given.resolution.bind (·.matched)

theorem matchedIn_idle : matchedIn idleChecked.1 = some (some 1) ∧ matchedIn idleRefuted.1 = some none := by
  decide +kernel

/-- The two calls as uses. -/
def idleUses : List Use :=
  [⟨"app", "tick", ["() -> Integer", "() -> nil"], some 1⟩, ⟨"app", "tick", ["() -> Integer"], none⟩]

/-- A call on a module, with what its report says is satisfied. -/
theorem Uses.callModule {name : String} {action : Action Report} {after : Session} {found : Option Nat}
    (h : Uses s us s')
    (haction : action = check texts (.moduleObject name) method args keywords ∨
      action = refute texts (.moduleObject name) method args keywords)
    (hafter : (action.run.run s').2 = after) (hmatched : matchedIn (action.run.run s').1 = some found) :
    Uses s (us ++ [⟨Value.receiverText (.moduleObject name), method, texts, found⟩]) after := by
  rcases hrun : action.run.run s' with ⟨f | given, after'⟩
  · rw [hrun] at hmatched
    cases hmatched
  · rw [hrun] at hafter hmatched
    obtain rfl : after' = after := hafter
    obtain rfl := Option.some.inj hmatched
    exact h.call haction hrun

theorem uses_idle : Uses idle idleUses idleRefuted.2 :=
  (Uses.none.callModule (.inl rfl) rfl matchedIn_idle.1).callModule (.inr rfl) rfl matchedIn_idle.2

theorem uses_exercised_idle :
    Uses idle idleUses idleRefuted.2 ∧
    (⟨"app", "tick", .number 0⟩, ⟨2, 0, "() -> Integer"⟩) ∈ idleRefuted.2.ledger.entries ∧
    (⟨"app", "tick", .number 1⟩, ⟨1, 1, "() -> nil"⟩) ∈ idleRefuted.2.ledger.entries ∧
    ⟨"app", "tick", .number 0⟩ ∈ idleRefuted.2.ledger.unexercised := by
  obtain ⟨-, hentries, -, hunexercised⟩ := uses_exercised uses_idle rfl .initial
  refine ⟨uses_idle, (hentries _).2 ⟨"app", "tick", "() -> Integer", by decide, by decide⟩,
    (hentries _).2 ⟨"app", "tick", "() -> nil", by decide, by decide⟩,
    (hunexercised _).2 ⟨"app", "tick", "() -> Integer", by decide, by decide, by decide⟩⟩

end Session

end Conformance
