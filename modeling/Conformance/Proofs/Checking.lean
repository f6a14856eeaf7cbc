import Conformance.Proofs.Inspection
import Conformance.Proofs.SignatureFaults

/-!
# What a check does

`Ran` says all that happens in a check that comes to an end: the signatures are read, the call is prepared, the
method is looked up and called, once, and what came of it is judged; then the attempts are entered.  A check and a
refutation both do this (`run_check`, `run_refute`), and differ only in what they make of the result.

`Tries` says which attempts a resolution consists of: the signatures in order, up to the first that is satisfied.
-/

namespace Conformance

variable {i : Invocation}

/-! ## Attempts -/

/-- The attempts at signatures from number `index` on, and the number of the one that is satisfied. -/
inductive Tries : Nat → List Signature → Option Nat → List Attempt → Prop
  | exhausted {index : Nat} : Tries index [] none []
  | hit {index : Nat} {s : Signature} {rest : List Signature} : Tries index (s :: rest) (some index) [⟨index, s, none⟩]
  | miss {index : Nat} {s : Signature} {rest : List Signature} {matched : Option Nat} {attempts : List Attempt}
      {d : Diagnostic} (hd : d.signature = some s.label) (h : Tries (index + 1) rest matched attempts) :
      Tries index (s :: rest) matched (⟨index, s, some d⟩ :: attempts)

namespace Tries

variable {index : Nat} {signatures : List Signature} {matched : Option Nat} {attempts : List Attempt}

section

variable (h : Tries index signatures matched attempts)
include h

/-- All signatures are tried, or all up to the one that is satisfied. -/
theorem length_eq :
    attempts.length ≤ signatures.length ∧
      index + attempts.length = matched.elim (index + signatures.length) (· + 1) := by
  induction h with
  | exhausted => simp
  | hit => simp
  | @miss _ _ _ matched _ _ _ _ ih =>
    obtain ⟨hle, hlength⟩ := ih
    refine ⟨by simpa using hle, ?_⟩
    cases matched with
    | none =>
      simp only [Option.elim_none, List.length_cons] at hlength ⊢
      omega
    | some k =>
      simp only [Option.elim_some, List.length_cons] at hlength ⊢
      omega

theorem index_le {k : Nat} (hk : matched = some k) : index ≤ k := by
  induction h with
  | exhausted => cases hk
  | hit =>
    cases hk
    exact le_refl _
  | miss _ _ ih =>
    have := ih hk
    omega

/-- Each attempt is at the signature of its number. -/
theorem signature_of_mem {a : Attempt} (ha : a ∈ attempts) :
    index ≤ a.index ∧ signatures[a.index - index]? = some a.signature := by
  induction h with
  | exhausted => cases ha
  | hit =>
    rw [List.mem_singleton.1 ha]
    simp
  | @miss index _ _ _ _ _ _ _ ih =>
    rcases List.mem_cons.1 ha with rfl | ha
    · simp
    · obtain ⟨hle, hsignature⟩ := ih ha
      have hnext : a.index - index = a.index - (index + 1) + 1 := by omega
      refine ⟨by omega, ?_⟩
      rw [hnext, List.getElem?_cons_succ]
      exact hsignature

/-- If no signature is satisfied, each has one diagnostic with its text. -/
theorem labels (hnone : matched = none) :
    (attempts.filterMap (·.failure)).map (·.signature) = signatures.map fun s => some s.label := by
  induction h with
  | exhausted => rfl
  | hit => cases hnone
  | miss hd _ ih =>
    rw [List.map_cons, ← ih hnone, ← hd]
    rfl

end

end Tries

namespace Context

variable {ctx : Context} {scene after : Scene} {d : Diagnostic}

theorem signature_of_runChecks {text : String} {checks : List Check}
    (hchecks : ∀ d, Check.fails d ∈ checks → d.signature = some text)
    (h : (ctx.runChecks text checks).run.run scene = (.ok (some d), after)) : d.signature = some text := by
  induction checks generalizing scene with
  | nil => cases h
  | cons check checks ih =>
    cases check with
    | fails d' =>
      cases h
      exact hchecks d List.mem_cons_self
    | raised r t =>
      obtain ⟨shown, mid, -, hrest⟩ := run_bind_ok h
      cases hrest
      rfl
    | slot label v t =>
      obtain ⟨verdict, mid, -, hrest⟩ := run_bind_ok h
      have hothers (d : Diagnostic) (hd : Check.fails d ∈ checks) := hchecks d (List.mem_cons_of_mem _ hd)
      cases verdict with
      | no m =>
        cases hrest
        rfl
      | yes => exact ih hothers hrest
      | maybe name => exact ih hothers hrest

/-- The diagnostic of a signature carries its text. -/
theorem signature_of_checkSignature {s : Signature}
    (h : (ctx.checkSignature i s).run.run scene = (.ok (some d), after)) : d.signature = some s.label := by
  obtain ⟨_, mid, -, hchecks⟩ := run_bind_ok h
  refine signature_of_runChecks (fun d hd => ?_) hchecks
  cases Check.origin_ofSignature _ hd with
  | shape hsignature => exact hsignature

end Context

theorem Context.tries_of_resolveFrom {ctx : Context} {index : Nat} {tried : List Attempt}
    {signatures : List Signature} {scene scene' : Scene} {r : Resolution}
    (h : (ctx.resolveFrom i index tried signatures).run.run scene = (.ok r, scene')) :
    ∃ attempts, r.attempts = tried ++ attempts ∧ Tries index signatures r.matched attempts := by
  induction signatures generalizing index tried scene with
  | nil =>
    cases h
    exact ⟨[], (List.append_nil _).symm, .exhausted⟩
  | cons s rest ih =>
    obtain ⟨events, hstep⟩ := ctx.run_resolveFrom_cons i index tried s scene
    rw [hstep] at h
    rcases hcheck : (ctx.checkSignature i s).run.run scene with ⟨e | _ | d, mid⟩ <;> rw [hcheck] at h
    · cases h
    · cases h
      exact ⟨_, rfl, .hit⟩
    · obtain ⟨attempts, hattempts, htries⟩ := ih h
      exact ⟨_, by rw [hattempts, List.append_assoc]; rfl, .miss (signature_of_checkSignature hcheck) htries⟩

theorem Context.tries_of_resolve {ctx : Context} {signatures : List Signature} {scene scene' : Scene} {r : Resolution}
    (h : (ctx.resolve i signatures).run.run scene = (.ok r, scene')) : Tries 0 signatures r.matched r.attempts := by
  obtain ⟨attempts, hattempts, htries⟩ := tries_of_resolveFrom h
  rw [hattempts]
  exact htries

/-- The signature that a call satisfies is among the attempts. -/
theorem Resolution.isSome_signature? {r : Resolution} {signatures : List Signature}
    (h : Tries 0 signatures r.matched r.attempts) : r.signature?.isSome = r.isOk := by
  unfold signature? isOk
  have hlength := h.length_eq.2
  cases hmatched : r.matched with
  | none => rfl
  | some k =>
    rw [hmatched] at hlength
    have hlt : k < r.attempts.length := by
      simp only [Option.elim_some] at hlength
      omega
    simp [List.getElem?_eq_getElem hlt]

/-! ## The call -/

namespace Invocation

/-- A prepared call is not made yet, and is one of the method on the receiver. -/
theorem of_prepare {receiver : Value} {method : String} {args : List Value} {keywords : List (String × Value)}
    (h : prepare receiver method args keywords = .ok i) : i.receiver = receiver ∧ i.method = method := by
  unfold prepare at h
  dsimp only at h
  split at h
  · cases h
  · cases h
    exact ⟨rfl, rfl⟩

/-- An error that is caught is kept, as a result is. -/
theorem run_captured (m : Run Value) (w : World) :
    (tryCatch (Except.ok <$> m : Run (Except Raised Value)) fun r => return .error r).run.run w =
      (.ok (m.run.run w).1, (m.run.run w).2) := by
  have hmap : (Except.ok <$> m : Run (Except Raised Value)).run.run w =
      ((m.run.run w).1.map .ok, (m.run.run w).2) := by
    rw [map_eq_pure_bind, run_bind]
    rcases m.run.run w with ⟨_ | _, _⟩ <;> rfl
  rw [Run.run_tryCatch, hmap]
  rcases m.run.run w with ⟨_ | _, _⟩ <;> rfl

/-- What making a call comes to: the method is looked up, and called with the arguments. -/
theorem called_of_perform {p : Program} {target : Value} {done : Invocation} {w left : World}
    (h : (i.perform p target).run.run w = (.ok (.ok done), left)) :
    ∃ callee asked outcome, (p.ask p.invoke target i.method).run.run w = (.ok (some callee), asked) ∧
      (p.invoke callee i.callArgs i.callKeywords).run.run { asked with blockCalls := [] } = (outcome, left) ∧
      done = { i with outcome := some outcome, blockCalls := left.blockCalls } := by
  unfold perform at h
  split at h
  · cases h
  · obtain ⟨found, asked, hasked, h⟩ := run_bind_ok h
    cases found with
    | none => cases h
    | some callee =>
      refine ⟨callee, asked, ?_⟩
      obtain ⟨_, _, hreset, h⟩ := run_bind_ok h
      cases hreset
      obtain ⟨outcome, _, hcall, h⟩ := run_bind_ok h
      rw [run_captured] at hcall
      cases hcall
      cases h
      exact ⟨_, hasked, rfl, rfl⟩

end Invocation

namespace Session

variable {s s' : Session} {texts : List String} {receiver : Value} {method : String} {args : List Value}
  {keywords : List (String × Value)} {done : Invocation} {r : Resolution}

/-! ## The run -/

/-- The state of the program once a call that raised was logged: its error is asked for its text. -/
def told (s : Session) (i : Invocation) (outcome : Except Raised Value) (left : World) : World :=
  match s.logging, outcome with
  | true, .error e => ((i.raisedMessage s.program e).run.run left).2
  | _, _ => left

theorem told_of_silent (h : s.logging = false) (i : Invocation) (outcome : Except Raised Value) (left : World) :
    s.told i outcome left = left := by
  simp [told, h]

theorem told_ok (s : Session) (i : Invocation) (v : Value) (left : World) : s.told i (.ok v) left = left := by
  simp [told]

theorem told_error (h : s.logging = true) (i : Invocation) (e : Raised) (left : World) :
    s.told i (.error e) left = ((i.raisedMessage s.program e).run.run left).2 := by
  simp [told, h]

/-- The session in which a call is judged. -/
def judged (s : Session) (texts : List String) (world : World) : Session :=
  { s with registry := (s.registry.signatureList texts).2.1, world }

/-- How a check goes that comes to an end.  The signatures are read and the call is prepared.  The method is looked
up and called, from a state without block calls; that is all that the program is run for before the call is judged,
except that an error is asked for its text where it is logged.  The judgement starts from the state that the call
left.  At the end the registry has learned what was looked up, and the attempts are entered. -/
inductive Ran (s : Session) (texts : List String) (receiver : Value) (method : String) (args : List Value)
    (keywords : List (String × Value)) : Invocation → World → Resolution → Session → Prop
  | intro {signatures : List Signature} {prepared : Invocation} {callee : Attribute} {asked left : World}
      {outcome : Except Raised Value} {done : Invocation} {r : Resolution} {scene : Scene} {log : List LogRecord}
      (hread : (s.registry.signatureList texts).1 = .ok signatures)
      (hprepared : Invocation.prepare (s.world.resolve receiver) method args (Program.keywordsOf keywords) = .ok prepared)
      (hasked : (s.program.ask s.program.invoke receiver method).run.run s.world = (.ok (some callee), asked))
      (hcalled : (s.program.invoke callee prepared.callArgs prepared.callKeywords).run.run
        { asked with blockCalls := [] } = (outcome, left))
      (hdone : done = { prepared with outcome := some outcome, blockCalls := left.blockCalls })
      (hjudged : (Context.resolve ((s.judged texts (s.told prepared outcome left)).context (some receiver)) done
        signatures).run.run { world := s.told prepared outcome left } = (.ok r, scene)) :
      Ran s texts receiver method args keywords done left r
        { s with
          registry := ((s.registry.signatureList texts).2.1.replay scene.events.reverse).1
          world := scene.world
          ledger := enter done (signatures.map (·.label)) r s.ledger
          log }

/-- What making a prepared call in a session comes to. -/
theorem called_of_run {prepared : Invocation} (h : (perform receiver prepared).run.run s = (.ok done, s')) :
    ∃ callee asked outcome left,
      (s.program.ask s.program.invoke receiver prepared.method).run.run s.world = (.ok (some callee), asked) ∧
      (s.program.invoke callee prepared.callArgs prepared.callKeywords).run.run { asked with blockCalls := [] } =
        (outcome, left) ∧
      done = { prepared with outcome := some outcome, blockCalls := left.blockCalls } ∧
      s' = { s with world := s.told prepared outcome left, log := s'.log } := by
  obtain ⟨result, mid, hcall, h⟩ := run_bind_ok h
  obtain ⟨made, mid', hmade, h⟩ := run_bind_ok h
  rw [run_running] at hcall
  rcases hrun : (prepared.perform s.program receiver).run.run s.world with ⟨e | result', left⟩
  · rw [hrun] at hcall
    cases hcall
  rw [hrun] at hcall
  cases hcall
  rw [run_demand] at hmade
  cases result with
  | error e => cases hmade
  | ok made' =>
    cases hmade
    obtain ⟨callee, asked, outcome, hasked, hcalled, rfl⟩ := Invocation.called_of_perform hrun
    rw [run_bind, run_get] at h
    dsimp only at h
    refine ⟨callee, asked, outcome, left, hasked, hcalled, ?_⟩
    split at h
    · rename_i hlogging
      cases outcome with
      | error e =>
        rw [told_error hlogging]
        obtain ⟨text, after, htext, h⟩ := run_bind_ok h
        rw [run_running] at htext
        dsimp only at htext
        generalize (prepared.raisedMessage s.program e).run.run left = asked at htext ⊢
        obtain ⟨_ | _, world⟩ := asked
        · cases htext
        · cases htext
          rw [run_bind, run_note] at h
          cases h
          exact ⟨rfl, rfl⟩
      | ok v =>
        cases h
        exact ⟨rfl, by rw [told_ok]⟩
    · rename_i hsilent
      cases h
      exact ⟨rfl, by rw [told_of_silent (by simpa using hsilent)]⟩

/-- What finding the overload of a call comes to. -/
theorem resolved_of_run {ss : List Signature} (h : (resolve receiver done ss).run.run s = (.ok r, s')) :
    ∃ scene, (Context.resolve (s.context (some receiver)) done ss).run.run { world := s.world } = (.ok r, scene) ∧
      s' = { s with registry := (s.registry.replay scene.events.reverse).1, world := scene.world, log := s'.log } := by
  obtain ⟨log, hjudging⟩ := run_judging (some receiver) none (fun ctx => ctx.resolve done ss) s
  unfold resolve at h
  rw [run_bind, hjudging] at h
  dsimp only at h
  rw [run_demand] at h
  generalize (Context.resolve (s.context (some receiver)) done ss).run.run { world := s.world } = judged at h
  obtain ⟨e | r', scene⟩ := judged
  · cases h
  · cases h
    exact ⟨scene, rfl, rfl⟩

theorem ran_of_run (h : (run texts receiver method args keywords).run.run s = (.ok (done, r), s')) :
    ∃ left, Ran s texts receiver method args keywords done left r s' := by
  obtain ⟨ss, read, hread, h⟩ := run_bind_ok h
  obtain ⟨prepared, _, hprepare, h⟩ := run_bind_ok h
  obtain ⟨_, noted, hnote, h⟩ := run_bind_ok h
  obtain ⟨done', made, hperform, h⟩ := run_bind_ok h
  obtain ⟨r', resolved, hresolve, h⟩ := run_bind_ok h
  cases h
  obtain ⟨hframe, hregistry⟩ := run_signatures hread
  obtain ⟨hregistry, hss⟩ := hregistry ss rfl
  obtain ⟨registry, log, rfl⟩ : ∃ registry log, read = { s with registry, log } := ⟨_, _, hframe⟩
  subst hregistry
  obtain ⟨hprepared, rfl⟩ := prepared_of_run hprepare
  rw [run_note] at hnote
  cases hnote
  obtain ⟨callee, asked, outcome, left, hasked, hcalled, hdone, hmade⟩ := called_of_run hperform
  obtain ⟨log', rfl⟩ : ∃ log, made = { s with
      registry := (s.registry.signatureList texts).2.1, world := s.told prepared outcome left, log } := ⟨_, hmade⟩
  obtain ⟨scene, hjudged, hresolved⟩ := resolved_of_run hresolve
  rw [(Invocation.of_prepare hprepared).2] at hasked
  rw [hresolved]
  exact ⟨left, .intro hss hprepared hasked hcalled hdone hjudged⟩

/-! ## Checks and refutations -/

/-- A report on a call. -/
def report (passed : Bool) (i : Invocation) (r : Resolution) (diagnostics : List Diagnostic) : Report :=
  ⟨passed, i.label, some i, some r, diagnostics⟩

/-- A check passes when the call conforms. -/
theorem run_check (h : (run texts receiver method args keywords).run.run s = (.ok (done, r), s')) :
    ∃ diagnostics log, (check texts receiver method args keywords).run.run s =
      (.ok (report r.isOk done r diagnostics), { s' with log }) := by
  unfold check
  rw [run_bind, h]
  dsimp only
  cases hok : r.isOk with
  | true => exact ⟨[], s'.log, rfl⟩
  | false =>
    rw [if_neg Bool.false_ne_true, run_bind, run_note]
    exact ⟨r.diagnostics, _, rfl⟩

/-- A refutation passes when the call does not conform. -/
theorem run_refute (h : (run texts receiver method args keywords).run.run s = (.ok (done, r), s'))
    (hfound : r.signature?.isSome = r.isOk) :
    ∃ diagnostics log, (refute texts receiver method args keywords).run.run s =
      (.ok (report (!r.isOk) done r diagnostics), { s' with log }) := by
  unfold refute
  rw [run_bind, h]
  dsimp only
  unfold Resolution.isOk at hfound ⊢
  cases hmatched : r.matched with
  | none => exact ⟨[], s'.log, rfl⟩
  | some index =>
    rw [hmatched] at hfound
    obtain ⟨signature, hsignature⟩ := Option.isSome_iff_exists.1 hfound
    rw [hsignature]
    dsimp only
    rw [run_bind, run_note]
    exact ⟨[unexpectedMatch done index signature], _, rfl⟩

/-- What a resolution satisfies is among what it tried. -/
theorem Ran.isSome_signature? {left : World} (h : Ran s texts receiver method args keywords done left r s') :
    r.signature?.isSome = r.isOk := by
  cases h with
  | intro _ _ _ _ _ hjudged => exact Resolution.isSome_signature? (Context.tries_of_resolve hjudged)

/-- A check of either kind that gives a report has run, and reports on the run. -/
theorem ran_of_report {action : Action Report} {given : Report}
    (haction : action = check texts receiver method args keywords ∨ action = refute texts receiver method args keywords)
    (h : action.run.run s = (.ok given, s')) :
    ∃ done left r after log, Ran s texts receiver method args keywords done left r after ∧ given.invocation = some done ∧
      given.resolution = some r ∧ s' = { after with log } := by
  rcases hrun : (run texts receiver method args keywords).run.run s with ⟨f | ⟨done, r⟩, after⟩
  · rcases haction with rfl | rfl
    · rw [check, run_bind, hrun] at h
      cases h
    · rw [refute, run_bind, hrun] at h
      cases h
  · obtain ⟨left, hran⟩ := ran_of_run hrun
    rcases haction with rfl | rfl
    · obtain ⟨diagnostics, log, hcheck⟩ := run_check hrun
      rw [hcheck] at h
      cases h
      exact ⟨done, left, r, after, log, hran, rfl, rfl, rfl⟩
    · obtain ⟨diagnostics, log, hrefute⟩ := run_refute hrun hran.isSome_signature?
      rw [hrefute] at h
      cases h
      exact ⟨done, left, r, after, log, hran, rfl, rfl, rfl⟩

end Session

end Conformance
