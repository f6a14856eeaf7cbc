import Mathlib
import Conformance.Overload
import Conformance.Proofs.Law

/-!
# Computations in succession

Signatures are checked one after the other, and so are the alternatives of a union, each from bindings of its own.
`Judging.inTurn` says what comes of that: every computation takes place in the state that the one before it has left.

What has happened does not bear on a judgement (`Oblivious`).  So all that passes from one check of a signature to the
next is the state of the program (`SelfContained`).

What a judgement comes to (`Outcome`) is put together from what its parts come to: of demands the first that is not met
decides (`Outcome.andThen`), of alternatives the first that is not rejected (`Outcome.firstOf`).
-/

namespace Conformance

/-- The scenes differ at most in what has happened. -/
structure Scene.Same (s s' : Scene) : Prop where
  world : s.world = s'.world
  bindings : s.bindings = s'.bindings

namespace Judging

variable {α β : Type}

/-! ## What has happened -/

/-- The two runs come to the same, up to what has happened. -/
structure SameRun (run run' : Except Fault α × Scene) : Prop where
  result : run.1 = run'.1
  scene : run.2.Same run'.2

/-- The computation does not look at what has happened. -/
def Oblivious (α : Type) (m : Judging α) : Prop :=
  ∀ s s' : Scene, s.Same s' → SameRun (m.run.run s) (m.run.run s')

theorem Oblivious.bind {m : Judging α} {f : α → Judging β} (hm : Oblivious α m) (hf : ∀ a, Oblivious β (f a)) :
    Oblivious β (m >>= f) := by
  intro s s' hsame
  have hfirst := hm s s' hsame
  rw [run_bind, run_bind]
  generalize m.run.run s = run, m.run.run s' = run' at hfirst ⊢
  obtain ⟨result, after⟩ := run
  obtain ⟨result', after'⟩ := run'
  obtain ⟨hresult, hscene⟩ := hfirst
  obtain rfl : result = result' := hresult
  cases result with
  | error e => exact ⟨rfl, hscene⟩
  | ok a => exact hf a after after' hscene

theorem Oblivious.tentatively {m : Judging Verdict} (hm : Oblivious Verdict m) : Oblivious Verdict m.tentatively := by
  intro s s' hsame
  have hfirst := hm s s' hsame
  rw [run_tentatively, run_tentatively]
  generalize m.run.run s = run, m.run.run s' = run' at hfirst ⊢
  obtain ⟨result, after⟩ := run
  obtain ⟨result', after'⟩ := run'
  obtain ⟨hresult, hscene⟩ := hfirst
  obtain rfl : result = result' := hresult
  cases result with
  | error e => exact ⟨rfl, hscene.world, hsame.bindings⟩
  | ok verdict =>
    refine ⟨rfl, ?_⟩
    dsimp only
    split
    · exact hscene
    · exact ⟨hscene.world, hsame.bindings⟩

/-- Not to look at what has happened pervades judgements. -/
theorem pervades_oblivious : Pervades (fun _ => True) Oblivious where
  inspection _ _ := trivial
  pure _ _ _ hsame := ⟨rfl, hsame⟩
  bind := Oblivious.bind
  world {α f} h := by
    intro s s' hsame
    rw [run_bind, run_bind, run_get, run_get]
    dsimp only
    rw [hsame.world]
    exact h s'.world s s' hsame
  demand _ _ _ hsame := ⟨rfl, hsame⟩
  running run s s' hsame := by
    rw [run_running, run_running, hsame.world]
    rcases run.run.run s'.world with ⟨e | a, w⟩ <;> exact ⟨rfl, rfl, hsame.bindings⟩
  happen _ _ _ hsame := ⟨rfl, hsame.world, hsame.bindings⟩
  tentatively := Oblivious.tentatively

end Judging

namespace Context

open Judging

theorem oblivious_judgeTypeVar (ctx : Context) (name : String) (v : Value) (path : Path) :
    Oblivious Verdict (ctx.judgeTypeVar name v path) := by
  intro s s' hsame
  unfold judgeTypeVar
  rw [run_bind, run_bind, run_get, run_get]
  dsimp only
  rw [hsame.bindings]
  cases hb : s'.bindings with
  | none => exact ⟨rfl, hsame⟩
  | some b =>
    dsimp only
    split
    · exact ⟨rfl, hsame.world, rfl⟩
    · split
      · exact ⟨rfl, hsame⟩
      · split
        · exact ⟨rfl, hsame.world, rfl⟩
        · exact ⟨rfl, hsame⟩

/-- A judgement does not look at what has happened. -/
theorem oblivious_judge (ctx : Context) (fuel : Nat) (v : Value) (t : TypeExpr) (path : Path) :
    Oblivious Verdict (ctx.judge fuel v t path) := by
  refine pervades_oblivious.judge (fun u _ => admits_of_typeVar fun x _ w steps => ?_) fuel v path.steps
  exact oblivious_judgeTypeVar ctx x w ⟨path.slot, steps⟩

theorem oblivious_runChecks (ctx : Context) (text : String) (checks : List Check) :
    Oblivious (Option Diagnostic) (ctx.runChecks text checks) := by
  induction checks with
  | nil => exact pervades_oblivious.pure _
  | cons check checks ih =>
    cases check with
    | fails d => exact pervades_oblivious.pure _
    | raised r t => exact (pervades_oblivious.running _).bind fun _ => pervades_oblivious.pure _
    | slot label v t =>
      refine (oblivious_judge ctx _ v t ⟨label, []⟩).bind fun verdict => ?_
      cases verdict with
      | no m => exact pervades_oblivious.pure _
      | yes => exact ih
      | maybe name => exact ih

end Context

/-! ## One after the other -/

namespace Judging

variable {α : Type}

/-- The computation, from bindings of its own. -/
def startingFrom (b : Option Bindings) (m : Judging α) : Judging α := do
  modify fun s => { s with bindings := b }
  m

/-- All that the computation depends on is the state of the program. -/
def SelfContained (m : Judging α) : Prop :=
  ∀ s s' : Scene, s.world = s'.world → SameRun (m.run.run s) (m.run.run s')

theorem run_startingFrom (b : Option Bindings) (m : Judging α) (s : Scene) :
    (m.startingFrom b).run.run s = m.run.run { s with bindings := b } := rfl

theorem Oblivious.startingFrom {m : Judging α} (hm : Oblivious α m) (b : Option Bindings) :
    SelfContained (m.startingFrom b) :=
  fun s s' hworld => hm { s with bindings := b } { s' with bindings := b } ⟨hworld, rfl⟩

/-- The runs of computations, each in the scene that the one before it has left. -/
def inTurn : List (Judging α) → Scene → List (Except Fault α × Scene)
  | [], _ => []
  | m :: ms, s => m.run.run s :: inTurn ms (m.run.run s).2

end Judging

/-! ## Outcomes -/

/-- What a judgement comes to. -/
abbrev Outcome := Except Fault Verdict

namespace Outcome

/-- What a demand and the one after it come to. -/
def andThen : Outcome → Outcome → Outcome
  | .ok verdict, next => if verdict.isOk then next else .ok verdict
  | .error e, _ => .error e

/-- What alternatives come to: the first that is not rejected decides. -/
def firstOf (rejected : List Mismatch → Mismatch) : List Mismatch → List Outcome → Outcome
  | failures, [] => .ok (.no (rejected failures))
  | failures, .ok (.no m) :: outcomes => firstOf rejected (failures ++ [m]) outcomes
  | _, outcome :: _ => outcome

end Outcome

namespace Judging

theorem run_andThen (m n : Judging Verdict) (s : Scene) :
    (m.andThen n).run.run s =
      match m.run.run s with
      | (.ok verdict, after) => if verdict.isOk then n.run.run after else (.ok verdict, after)
      | (.error e, after) => (.error e, after) := by
  unfold andThen
  rw [run_bind]
  rcases m.run.run s with ⟨e | verdict, after⟩
  · rfl
  · dsimp only
    split <;> rfl

theorem outcome_andThen (m n : Judging Verdict) (s : Scene) :
    ((m.andThen n).run.run s).1 = Outcome.andThen (m.run.run s).1 (n.run.run (m.run.run s).2).1 := by
  rw [run_andThen]
  rcases m.run.run s with ⟨e | verdict, after⟩
  · rfl
  · dsimp only [Outcome.andThen]
    split <;> rfl

/-- Alternatives are tried in turn, each from the bindings at the beginning. -/
theorem run_firstOf_cons (rejected : List Mismatch → Mismatch) (failures : List Mismatch) (m : Judging Verdict)
    (ms : List (Judging Verdict)) (s : Scene) :
    (firstOf rejected failures (m :: ms)).run.run s =
      match m.run.run s with
      | (.ok (.no reason), after) =>
        (firstOf rejected (failures ++ [reason]) ms).run.run { after with bindings := s.bindings }
      | (.ok verdict, after) => (.ok verdict, after)
      | (.error e, after) => (.error e, { after with bindings := s.bindings }) := by
  rw [firstOf, run_bind, run_tentatively]
  rcases m.run.run s with ⟨e | verdict, after⟩
  · rfl
  · cases verdict <;> rfl

/-- Computations with bindings of their own do not mind what is bound. -/
theorem inTurn_startingFrom (b b' : Option Bindings) (ms : List (Judging Verdict)) (s : Scene) :
    inTurn (ms.map (startingFrom b)) { s with bindings := b' } = inTurn (ms.map (startingFrom b)) s := by
  cases ms <;> rfl

theorem outcome_firstOf (rejected : List Mismatch → Mismatch) (failures : List Mismatch)
    (ms : List (Judging Verdict)) (s : Scene) :
    ((firstOf rejected failures ms).run.run s).1 =
      Outcome.firstOf rejected failures ((inTurn (ms.map (startingFrom s.bindings)) s).map (·.1)) := by
  induction ms generalizing failures s with
  | nil => rfl
  | cons m ms ih =>
    rw [run_firstOf_cons, List.map_cons, inTurn, run_startingFrom, List.map_cons]
    rcases m.run.run s with ⟨e | verdict, after⟩
    · rfl
    · cases verdict with
      | no reason =>
        dsimp only
        rw [ih, Outcome.firstOf, inTurn_startingFrom]
      | yes => rfl
      | maybe name => rfl

end Judging

namespace Context

open Judging

/-- A signature is checked from no bindings, so nothing but the state of the program bears on it. -/
theorem selfContained_checkSignature (ctx : Context) (i : Invocation) (s : Signature) :
    SelfContained (ctx.checkSignature i s) :=
  (ctx.oblivious_runChecks s.label (Check.ofSignature s i)).startingFrom (some .empty)

/-- Signatures are tried in turn, until one of them matches. -/
theorem run_resolveFrom_cons (ctx : Context) (i : Invocation) (index : Nat) (tried : List Attempt) (s : Signature)
    (scene : Scene) :
    ∃ events, ∀ rest, (ctx.resolveFrom i index tried (s :: rest)).run.run scene =
      match (ctx.checkSignature i s).run.run scene with
      | (.ok none, after) =>
        (.ok ⟨some index, tried ++ [⟨index, s, none⟩], after.bindings⟩, { after with events })
      | (.ok (some d), after) =>
        (ctx.resolveFrom i (index + 1) (tried ++ [⟨index, s, some d⟩]) rest).run.run { after with events }
      | (.error e, after) => (.error e, after) := by
  simp only [resolveFrom, run_bind]
  rcases (ctx.checkSignature i s).run.run scene with ⟨e | _ | d, after⟩
  · exact ⟨[], fun _ => rfl⟩
  · obtain ⟨events, hnote⟩ := ctx.run_note_text .debug .resolver
      s!"`{i.label}` matches overload {index}: {s.render}" after
    refine ⟨events, fun _ => ?_⟩
    dsimp only
    rw [run_bind, hnote]
    rfl
  · obtain ⟨events, hnote⟩ := ctx.run_note_text .debug .resolver
      s!"`{i.label}` does not match overload {index}: {d.message}" after
    refine ⟨events, fun _ => ?_⟩
    dsimp only
    rw [run_bind, hnote]

end Context

end Conformance
