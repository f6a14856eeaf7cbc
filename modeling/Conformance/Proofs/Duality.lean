import Mathlib
import Conformance.Proofs.FirstMatch

/-!
# Checks and refutations are duals

A check and a refutation of the same call do the same (`Ran`), and pass in opposite cases.  Either calls the method once
and then judges.  That need not be the only time that the method runs: what the call was given or returned is looked at,
once for each overload that is tried, and an object of the program may answer to that with the very method.  Where all
that is judged is built in, nothing runs after the call (`Ran.world_eq`).

Main statement: `Session.check_refute_dual`.
-/

namespace Conformance

namespace Session

variable {s s' : Session} {texts : List String} {receiver : Value} {method : String} {args : List Value}
  {keywords : List (String × Value)} {done : Invocation} {r : Resolution}

/-- Where all that is judged is built in, the program is left as the call has left it. -/
theorem Ran.world_eq {left : World} {cells : Nat → Prop} (h : Ran s texts receiver method args keywords done left r s')
    (hp : s.program.Separate) (hw : left.BuiltIn cells) (hi : done.BuiltIn cells)
    (hquiet : s.logging = false ∨ done.error? = none) : s'.world = left := by
  cases h with
  | @intro signatures prepared callee asked left outcome _ _ scene log hread hprepared hasked hcalled hdone hjudged =>
    subst hdone
    have htold : s.told prepared outcome left = left := by
      rcases hquiet with hsilent | hreturned
      · exact told_of_silent hsilent prepared outcome left
      · cases outcome with
        | error e => cases hreturned
        | ok v => exact told_ok s prepared v left
    rw [htold] at hjudged
    have hctx : ((s.judged texts left).context (some receiver)).program.Separate := hp
    have hscene : ({ world := left } : Scene).world.BuiltIn cells := hw
    exact (congrArg (·.2.world) hjudged).symm.trans (Context.world_resolveFrom hctx hscene hi 0 [])

/-- **A check and a refutation of the same call are duals.**  From the same session, both fail in the same way and
leave the same session, or both report on one and the same run: they tell of the same call, with the same outcome and
block calls, and of the same resolution; exactly one of them passes, the check if an overload is satisfied; and they leave
sessions that differ in nothing but the log.  The method is called once before the judgement, and where all that is judged
is built in, and no error is logged, nothing is run after it, so the calls that are counted are those of this call. -/
theorem check_refute_dual (s : Session) (texts : List String) (receiver : Value) (method : String) (args : List Value)
    (keywords : List (String × Value)) :
    (∃ f s', (check texts receiver method args keywords).run.run s = (.error f, s') ∧
      (refute texts receiver method args keywords).run.run s = (.error f, s')) ∨
    ∃ done left r s', Ran s texts receiver method args keywords done left r s' ∧
      (∀ cells, s.program.Separate → left.BuiltIn cells → done.BuiltIn cells →
        s.logging = false ∨ done.error? = none → s'.world = left) ∧
      (∃ diagnostics log, (check texts receiver method args keywords).run.run s =
        (.ok (report r.isOk done r diagnostics), { s' with log })) ∧
      ∃ diagnostics log, (refute texts receiver method args keywords).run.run s =
        (.ok (report (!r.isOk) done r diagnostics), { s' with log }) := by
  rcases hrun : (run texts receiver method args keywords).run.run s with ⟨f | ⟨done, r⟩, s'⟩
  · refine .inl ⟨f, s', ?_, ?_⟩
    · rw [check, run_bind, hrun]
    · rw [refute, run_bind, hrun]
  · obtain ⟨left, hran⟩ := ran_of_run hrun
    exact .inr ⟨done, left, r, s', hran, fun _ => hran.world_eq, run_check hrun, run_refute hrun hran.isSome_signature?⟩

/-- An object that passes a number on to its block. -/
def relaying : Session where
  program :=
    { classes := [⟨.declared "Relay", [.builtin "object"], [("pass", .method .ofInstance Formal.anything 0)]⟩]
      scripts := [[.call (.arg 0) [.value (.int (-2))] [], .answer .last]] }

/-- Its method is checked against two overloads. -/
def relayTexts : List String := ["() -> nil", "() \x7b (int) -> int \x7d -> int"]

def relay : Value := .object (.declared "Relay") none []

/-- What a report says: whether it passes, which overload is satisfied, and how often the block was called. -/
def told? (result : Except Failure Report) : Option (Bool × Option Nat × Nat) :=
  result.toOption.map fun given =>
    (given.passed, given.resolution.bind (·.matched), given.invocation.elim 0 (·.blockCalls.length))

theorem told_relay :
    let checked := (check relayTexts relay "pass" [.block (.builtin "abs")] []).run.run relaying
    told? checked.1 = some (true, some 1, 1) ∧ checked.2.world.calls = 1 := by
  decide +kernel

/-- The second overload is satisfied, so the check passes and the refutation does not; the method was called once, and so
was its block. -/
theorem check_refute_dual_relay :
    ∃ done left r s', Ran relaying relayTexts relay "pass" [.block (.builtin "abs")] [] done left r s' ∧
      r.matched = some 1 ∧ done.blockCalls.length = 1 ∧ s'.world.calls = 1 ∧
      (∃ diagnostics log, (check relayTexts relay "pass" [.block (.builtin "abs")] []).run.run relaying =
        (.ok (report true done r diagnostics), { s' with log })) ∧
      ∃ diagnostics log, (refute relayTexts relay "pass" [.block (.builtin "abs")] []).run.run relaying =
        (.ok (report false done r diagnostics), { s' with log }) := by
  obtain ⟨htold, hcalls⟩ := told_relay
  obtain ⟨f, s', hcheck, -⟩ | ⟨done, left, r, s', hran, -, ⟨diagnostics, log, hcheck⟩, hrefute⟩ :=
    check_refute_dual relaying relayTexts relay "pass" [.block (.builtin "abs")] []
  · rw [hcheck] at htold
    cases htold
  · rw [hcheck] at htold hcalls
    have htold : (r.isOk, r.matched, done.blockCalls.length) = (true, some 1, 1) := Option.some.inj htold
    obtain ⟨hpassed, hmatched, hblock⟩ : r.isOk = true ∧ r.matched = some 1 ∧ done.blockCalls.length = 1 := by
      simpa using htold
    rw [hpassed] at hcheck hrefute
    exact ⟨done, left, r, s', hran, hmatched, hblock, hcalls, ⟨diagnostics, log, hcheck⟩, hrefute⟩

/-- A mapping that answers to the question for its keys itself. -/
def answering : Session where
  program :=
    { classes := [⟨.declared "D", [.builtin "dict"], [("keys", .method .ofInstance Formal.anything 0)]⟩]
      scripts := [[.answer (.sequence .list [])]] }

/-- The method of a mapping that is asked for its keys is called once more when the mapping is judged. -/
theorem judging_calls_again :
    let d := Value.object (.declared "D") (some (.mapping .dict [])) []
    let checked := (check ["(Hash[str, int]) -> untyped"] d "keys" [d] []).run.run answering
    told? checked.1 = some (true, some 0, 0) ∧ checked.2.world.calls = 2 := by
  decide +kernel

end Session

end Conformance
