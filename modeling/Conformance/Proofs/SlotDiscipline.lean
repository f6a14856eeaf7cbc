import Conformance.Proofs.Growth
import Conformance.Proofs.Slots

/-!
# Slot discipline of type variables

A type variable is bound in the first slot that meets it, may be widened while that slot is being judged, and
stays as it is from then on.  That rests on two things: judging in a slot makes bindings grow in that slot only
(`satisfies_grows`), and the slots of one check have different labels (`labels_ofSignature_nodup`).
-/

namespace Conformance

open Judging

namespace Context

variable {ctx : Context} {slots : String → Prop}

theorem runChecks_grows (hr : ctx.registry.Reachable) (text : String) {checks : List Check}
    (hslots : ∀ label ∈ Check.labels checks, slots label) :
    (growthLaw slots fun _ => True).Obeyed (ctx.runChecks text checks) := by
  induction checks with
  | nil => exact Law.obeyed_pure _
  | cons check checks ih =>
    cases check with
    | fails d => exact Law.obeyed_pure _
    | raised r t => exact (Law.obeyed_running _).bind fun _ => Law.obeyed_pure _
    | slot label v t =>
      have hhere : slots label := hslots label (List.mem_cons_self ..)
      refine (satisfies_grows hr hhere (fun _ _ => trivial) v).bind fun verdict => ?_
      cases verdict with
      | no m => exact Law.obeyed_pure _
      | yes => exact ih fun l hl => hslots l (List.mem_cons_of_mem _ hl)
      | maybe name => exact ih fun l hl => hslots l (List.mem_cons_of_mem _ hl)

/-- Checks are gone through one after the other, up to the first that fails. -/
theorem run_runChecks_append (text : String) (before after : List Check) (s : Scene) :
    (ctx.runChecks text (before ++ after)).run.run s =
      match (ctx.runChecks text before).run.run s with
      | (.ok none, s') => (ctx.runChecks text after).run.run s'
      | stopped => stopped := by
  induction before generalizing s with
  | nil => rfl
  | cons check before ih =>
    cases check with
    | fails d => rfl
    | raised r t =>
      rw [List.cons_append, runChecks, runChecks, run_bind, run_running]
      rcases (ctx.program.textOf ctx.program.invoke r.toValue).run.run s.world with ⟨_ | _, _⟩ <;> rfl
    | slot label v t =>
      rw [List.cons_append, runChecks, run_bind, runChecks, run_bind]
      rcases (ctx.satisfies v t label).run.run s with ⟨e | verdict, s'⟩
      · rfl
      · cases verdict with
        | no m => rfl
        | yes => exact ih s'
        | maybe name => exact ih s'

/-- In the check of a call against a signature, the slot with the label is judged with some bindings; these are
`after` when that is done and `final` at the end of the check. -/
def SlotRun (ctx : Context) (i : Invocation) (s : Signature) (start : Scene) (label : String)
    (before after final : Bindings) : Prop :=
  ∃ (passed : List Check) (v : Value) (t : TypeExpr) (others : List Check) (scene : Scene),
    Check.ofSignature s i = passed ++ .slot label v t :: others ∧
    (ctx.runChecks s.label passed).run.run { start with bindings := some .empty } = (.ok none, scene) ∧
    scene.bindings = some before ∧
    ((ctx.satisfies v t label).run.run scene).2.bindings = some after ∧
    ((ctx.checkSignature i s).run.run start).2.bindings = some final

/-- The steps of growth of a check around one of its slots. -/
theorem SlotRun.growth (hr : ctx.registry.Reachable) {i : Invocation} {s : Signature} {start : Scene}
    {label : String} {before after final : Bindings} (h : ctx.SlotRun i s start label before after final) :
    ∃ earlier later : List String, Check.labels (Check.ofSignature s i) = earlier ++ label :: later ∧
      Bindings.Grows (· ∈ earlier) (fun _ => True) .empty before ∧
      Bindings.Grows (· = label) (fun _ => True) before after ∧
      Bindings.Grows (· ∈ later) (fun _ => True) after final := by
  obtain ⟨passed, v, t, others, scene, hchecks, hpassed, hbefore, hafter, hfinal⟩ := h
  refine ⟨Check.labels passed, Check.labels others, ?_, ?_, ?_, ?_⟩
  · rw [hchecks, Check.labels_append]
    rfl
  · exact (runChecks_grows hr s.label fun l hl => hl).grows rfl (by rw [hpassed]; exact hbefore)
  · have hslot : (growthLaw (· = label) fun _ => True).Obeyed (ctx.satisfies v t label) :=
      satisfies_grows hr (by rfl) (fun _ _ => trivial) v
    exact hslot.grows hbefore hafter
  · have hothers : (growthLaw (· ∈ Check.labels others) fun _ => True).Obeyed (ctx.runChecks s.label others) :=
      runChecks_grows hr s.label fun l hl => hl
    -- the check goes on from where the slot was reached
    change ((ctx.runChecks s.label (Check.ofSignature s i)).run.run
      { start with bindings := some .empty }).2.bindings = some final at hfinal
    rw [hchecks, run_runChecks_append, hpassed] at hfinal
    dsimp only at hfinal
    rw [runChecks, run_bind] at hfinal
    rcases hslot : (ctx.satisfies v t label).run.run scene with ⟨e | verdict, scene'⟩
    · rw [hslot] at hfinal hafter
      obtain rfl := Option.some.inj (hafter.symm.trans hfinal)
      exact .refl _
    · rw [hslot] at hfinal hafter
      cases verdict with
      | no m =>
        obtain rfl := Option.some.inj (hafter.symm.trans hfinal)
        exact .refl _
      | yes => exact hothers.grows hafter hfinal
      | maybe name => exact hothers.grows hafter hfinal

/-- Around one slot of a check: what was bound before is bound by another slot and stays, what is new is bound by
this one, and what is bound when it is done stays to the end. -/
theorem SlotRun.discipline (hr : ctx.registry.Reachable) {i : Invocation} (hi : i.Distinct) {s : Signature}
    {start : Scene} {label : String} {before after final : Bindings}
    (h : ctx.SlotRun i s start label before after final) (x : String) (b : Binding) :
    (before.get? x = some b → b.origin ≠ label ∧ after.get? x = some b) ∧
    (before.get? x = none → after.get? x = some b → b.origin = label) ∧
    (after.get? x = some b → final.get? x = some b) := by
  obtain ⟨earlier, later, hlabels, hgrows, hslot, hgrows'⟩ := h.growth hr
  have hnodup := Check.labels_ofSignature_nodup s hi
  rw [hlabels] at hnodup
  obtain ⟨-, hlater, hdisjoint⟩ := List.nodup_append.mp hnodup
  have hbefore (b : Binding) (hb : before.get? x = some b) : b.origin ∈ earlier := (hgrows.added x b rfl hb).1
  have hnew (hnone : before.get? x = none) (hb : after.get? x = some b) : b.origin = label :=
    (hslot.added x b hnone hb).1
  have hold (b : Binding) (hb : before.get? x = some b) : b.origin ≠ label ∧ after.get? x = some b := by
    have hne : b.origin ≠ label := hdisjoint _ (hbefore b hb) _ List.mem_cons_self
    exact ⟨hne, hslot.frozen hb hne⟩
  refine ⟨hold b, hnew, fun hb => hgrows'.frozen hb fun hmem => ?_⟩
  cases hprior : before.get? x with
  | none =>
    rw [hnew hprior hb] at hmem
    exact (List.nodup_cons.mp hlater).1 hmem
  | some prior =>
    obtain rfl : prior = b := Option.some.inj ((hold prior hprior).2.symm.trans hb)
    exact hdisjoint _ (hbefore prior hprior) _ (List.mem_cons_of_mem _ hmem) rfl

/-- Slot discipline.  Judging a value in a slot changes bindings in that slot only, and only by variables of the
type; the slots of a check have different labels; so what a check binds is bound in one slot, and is settled when
that slot is done. -/
theorem slot_discipline (hr : ctx.registry.Reachable) :
    (∀ (v : Value) (t : TypeExpr) (slot : String) (s : Scene) (b : Bindings), s.bindings = some b →
      ∃ b', ((ctx.satisfies v t slot).run.run s).2.bindings = some b' ∧ b.Grows (· = slot) t.HasVar b') ∧
    (∀ (i : Invocation) (s : Signature), i.Distinct →
      (Check.labels (Check.ofSignature s i)).Nodup ∧
      ∀ (start : Scene) (label : String) (before after final : Bindings),
        ctx.SlotRun i s start label before after final → ∀ (x : String) (b : Binding),
          (before.get? x = some b → b.origin ≠ label ∧ after.get? x = some b) ∧
          (before.get? x = none → after.get? x = some b → b.origin = label) ∧
          (after.get? x = some b → final.get? x = some b)) := by
  constructor
  · intro v t slot s b hb
    have hgrows : (growthLaw (· = slot) t.HasVar).Obeyed (ctx.satisfies v t slot) :=
      satisfies_grows hr (by rfl) (fun _ hx => hx) v
    exact hgrows.exists_grows hb
  · intro i s hi
    exact ⟨Check.labels_ofSignature_nodup s hi, fun start label before after final h => h.discipline hr hi⟩

/-- A call of a method that returns its argument, or another value like it. -/
def echoCall : Invocation where
  receiver := .null
  method := "echo"
  args := [.int 1]
  keywords := [("like", .int 2)]
  outcome := some (.ok (.int 3))

/-- A signature that asks for arguments and a result of one class. -/
def echoSignature : Signature where
  params := { required := [⟨.typeVar "T", none⟩], requiredKeywords := [("like", ⟨.typeVar "T", none⟩)] }
  result := .typeVar "T"
  typeParams := ["T"]

/-- What the first argument of the call binds, and the others keep. -/
def echoBinding : Binding := ⟨[.builtin "int"], "argument 0"⟩

theorem echoCall_slotRun : SlotRun {} echoCall echoSignature {} "keyword `like`" ⟨[("T", echoBinding)]⟩
    ⟨[("T", echoBinding)]⟩ ⟨[("T", echoBinding)]⟩ :=
  ⟨[.slot "argument 0" (.int 1) (.typeVar "T")], .int 2, .typeVar "T",
    [.slot "return value" (.int 3) (.typeVar "T")], { bindings := some ⟨[("T", echoBinding)]⟩ },
    rfl, rfl, rfl, by decide +kernel, by decide +kernel⟩

theorem slot_discipline_echo :
    Registry.initial.Reachable ∧ echoCall.Distinct ∧
    (∃ b', ((satisfies {} (.int 1) (.typeVar "T") "argument 0").run.run
      { bindings := some .empty }).2.bindings = some b' ∧
        Bindings.empty.Grows (· = "argument 0") (TypeExpr.typeVar "T").HasVar b') ∧
    (Check.labels (Check.ofSignature echoSignature echoCall)).Nodup ∧
    echoBinding.origin ≠ "keyword `like`" := by
  have hdistinct : echoCall.Distinct := ⟨by decide, by simp [echoCall]⟩
  have hdiscipline := @slot_discipline {} .initial
  refine ⟨.initial, hdistinct, hdiscipline.1 _ _ _ _ _ rfl, (hdiscipline.2 _ _ hdistinct).1, ?_⟩
  exact ((((hdiscipline.2 _ _ hdistinct).2 _ _ _ _ _ echoCall_slotRun) "T" echoBinding).1 rfl).1

end Context

end Conformance
