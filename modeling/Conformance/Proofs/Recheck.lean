import Mathlib
import Conformance.Proofs.Growth
import Conformance.Proofs.Replay
import Conformance.Proofs.SignatureFaults

/-!
# Judging a value again

What a slot has bound does not bear on its own verdict: a type variable that the slot itself has bound, or that nobody
has bound, accepts every value, and what other slots have bound stays as it is while the slot is judged.  So two
judgements that start from the same state of the program and from bindings that differ in the slot only go the same way
(`Bindings.Agrees`), and a judgement from bindings that have all the classes which it would add adds nothing
(`Bindings.Covers`).

Both are said of one computation at a time by `Steady`, which pervades judgements.  In a session there is also what the
first judgement leaves in the registry, which does not bear on the second (`verdictFrom_after`).
-/

namespace Conformance

namespace Bindings

/-! ## Bindings of a slot and of others -/

/-- The two have the same entries of slots other than this one. -/
def Agrees (slot : String) (b c : Bindings) : Prop :=
  ∀ x binding, binding.origin ≠ slot → (b.get? x = some binding ↔ c.get? x = some binding)

/-- What the slot has bound in the second is bound by it in the first, to the same classes or to more. -/
def Covers (slot : String) (c b : Bindings) : Prop :=
  ∀ x old, b.get? x = some old → old.origin = slot →
    ∃ new, c.get? x = some new ∧ new.origin = slot ∧ old.types ⊆ new.types

variable {slot : String} {a b c : Bindings}

theorem Agrees.refl (slot : String) (b : Bindings) : Agrees slot b b := fun _ _ _ => Iff.rfl

theorem Agrees.symm (h : Agrees slot b c) : Agrees slot c b := fun x binding ho => (h x binding ho).symm

theorem Agrees.trans (h : Agrees slot a b) (h' : Agrees slot b c) : Agrees slot a c :=
  fun x binding ho => (h x binding ho).trans (h' x binding ho)

theorem Covers.refl (slot : String) (b : Bindings) : Covers slot b b :=
  fun _ old hold ho => ⟨old, hold, ho, List.Subset.refl _⟩

theorem Covers.trans (h : Covers slot c b) (h' : Covers slot b a) : Covers slot c a := by
  intro x old hold ho
  obtain ⟨mid, hmid, ho', htypes⟩ := h' x old hold ho
  obtain ⟨new, hnew, ho'', htypes'⟩ := h x mid hmid ho'
  exact ⟨new, hnew, ho'', List.Subset.trans htypes htypes'⟩

theorem Grows.agrees {allowed : String → Prop} (h : Grows (· = slot) allowed b c) : Agrees slot b c := by
  intro x binding ho
  refine ⟨fun hb => h.frozen hb ho, fun hc => ?_⟩
  cases hb : b.get? x with
  | none => exact absurd (h.added x binding hb hc).1 ho
  | some old =>
    obtain ⟨new, hnew, hgrown⟩ := h.kept x old hb
    obtain rfl : new = binding := Option.some.inj (hnew.symm.trans hc)
    have hsame := h.frozen hb (hgrown.origin ▸ ho)
    exact hsame.symm.trans hc

theorem Grows.covers {allowed : String → Prop} (h : Grows (· = slot) allowed b c) : Covers slot c b := by
  intro x old hold ho
  obtain ⟨new, hnew, hgrown⟩ := h.kept x old hold
  exact ⟨new, hnew, hgrown.origin.trans ho, hgrown.types.subset⟩

end Bindings

/-! ## Steady computations -/

open Judging

/-- If the computation succeeds, it keeps what other slots have bound, and loses nothing that the slot has bound.  From
the same state of the program and from bindings that differ in the slot only, it does the same again; and it changes
nothing then, if all is bound already that it would bind. -/
def Steady (slot : String) (α : Type) (m : Judging α) : Prop :=
  ∀ (s : Scene) (b : Bindings) (a : α) (s' : Scene), s.bindings = some b → m.run.run s = (.ok a, s') →
    ∃ b', s'.bindings = some b' ∧ b.Agrees slot b' ∧ b'.Covers slot b ∧
      ∀ (again : Scene) (c : Bindings), again.world = s.world → again.bindings = some c → b.Agrees slot c →
        ∃ last c', m.run.run again = (.ok a, last) ∧ last.world = s'.world ∧ last.bindings = some c' ∧
          (c.Covers slot b' → c' = c)

section Steady

variable {slot : String} {α β : Type}

/-- A computation that does not touch the bindings, and does the same in the same state of the program. -/
theorem steady_of_run {m : Judging α} (h : ∀ (s : Scene) (a : α) (s' : Scene), m.run.run s = (.ok a, s') →
    s'.bindings = s.bindings ∧ ∀ again : Scene, again.world = s.world →
      ∃ last, m.run.run again = (.ok a, last) ∧ last.world = s'.world ∧ last.bindings = again.bindings) :
    Steady slot α m := by
  intro s b a s' hb hrun
  obtain ⟨hsame, hagain⟩ := h s a s' hrun
  refine ⟨b, hsame.trans hb, .refl slot b, .refl slot b, fun again c hworld hc _ => ?_⟩
  obtain ⟨last, hlast, hworld', hbindings⟩ := hagain again hworld
  exact ⟨last, c, hlast, hworld', hbindings.trans hc, fun _ => rfl⟩

theorem Steady.bind {m : Judging α} {f : α → Judging β} (hm : Steady slot α m) (hf : ∀ a, Steady slot β (f a)) :
    Steady slot β (m >>= f) := by
  intro s b r s' hb hrun
  obtain ⟨a, mid, hfirst, hsecond⟩ := run_bind_ok hrun
  obtain ⟨b₁, hb₁, hagrees₁, hcovers₁, hagain₁⟩ := hm s b a mid hb hfirst
  obtain ⟨b₂, hb₂, hagrees₂, hcovers₂, hagain₂⟩ := hf a mid b₁ r s' hb₁ hsecond
  refine ⟨b₂, hb₂, hagrees₁.trans hagrees₂, hcovers₂.trans hcovers₁, fun again c hworld hc hagrees => ?_⟩
  obtain ⟨mid', c₁, hfirst', hworld₁, hc₁, hsettled₁⟩ := hagain₁ again c hworld hc hagrees
  -- what other slots have bound is the same after both first parts
  have hagrees' : b₁.Agrees slot c₁ := by
    obtain ⟨c', hc', hkept, -⟩ := hm again c a mid' hc hfirst'
    obtain rfl := Option.some.inj (hc₁.symm.trans hc')
    exact hagrees₁.symm.trans (hagrees.trans hkept)
  obtain ⟨last, c₂, hsecond', hworld₂, hc₂, hsettled₂⟩ := hagain₂ mid' c₁ hworld₁ hc₁ hagrees'
  refine ⟨last, c₂, ?_, hworld₂, hc₂, fun hcovers => ?_⟩
  · rw [run_bind, hfirst']
    exact hsecond'
  · obtain rfl := hsettled₁ (hcovers.trans hcovers₂)
    exact hsettled₂ hcovers

theorem Steady.tentatively {m : Judging Verdict} (hm : Steady slot Verdict m) : Steady slot Verdict m.tentatively := by
  intro s b verdict s' hb hrun
  rcases hattempt : m.run.run s with ⟨e | found, after⟩
  · rw [run_tentatively, hattempt] at hrun
    cases hrun
  · rw [run_tentatively_ok hattempt] at hrun
    obtain ⟨hfound, rfl⟩ := Prod.mk.inj hrun
    obtain rfl := Except.ok.inj hfound
    obtain ⟨b', hb', hagrees, hcovers, hagain⟩ := hm s b found after hb hattempt
    by_cases hok : found.isOk = true
    · rw [if_pos hok]
      refine ⟨b', hb', hagrees, hcovers, fun again c hworld hc hc' => ?_⟩
      obtain ⟨last, c', hlast, hrest⟩ := hagain again c hworld hc hc'
      refine ⟨last, c', ?_, hrest⟩
      rw [run_tentatively_ok hlast, if_pos hok]
    · -- what a failed attempt has bound is forgotten, both times
      rw [if_neg hok]
      refine ⟨b, hb, .refl slot b, .refl slot b, fun again c hworld hc hc' => ?_⟩
      obtain ⟨last, c', hlast, hworld', -⟩ := hagain again c hworld hc hc'
      refine ⟨{ last with bindings := again.bindings }, c, ?_, hworld', hc, fun _ => rfl⟩
      rw [run_tentatively_ok hlast, if_neg hok]

/-- To be steady pervades judgements. -/
theorem pervades_steady (slot : String) : Pervades (fun _ => True) (Steady slot) where
  inspection _ _ := trivial
  pure a := steady_of_run fun s a' s' hrun => by
    cases hrun
    exact ⟨rfl, fun again hworld => ⟨again, rfl, hworld, rfl⟩⟩
  bind := Steady.bind
  world {α f} h := by
    intro s b a s' hb hrun
    obtain ⟨b', hb', hagrees, hcovers, hagain⟩ := h s.world s b a s' hb hrun
    refine ⟨b', hb', hagrees, hcovers, fun again c hworld hc hc' => ?_⟩
    obtain ⟨last, c', hlast, hrest⟩ := hagain again c hworld hc hc'
    refine ⟨last, c', ?_, hrest⟩
    rw [run_bind, run_get]
    dsimp only
    rw [hworld]
    exact hlast
  demand {α result} _ := steady_of_run fun s a s' hrun => by
    rw [run_demand] at hrun
    obtain ⟨rfl, rfl⟩ := Prod.mk.inj hrun
    exact ⟨rfl, fun again hworld => ⟨again, rfl, hworld, rfl⟩⟩
  running run := steady_of_run fun s a s' hrun => by
    rw [run_running] at hrun
    rcases hinspect : run.run.run s.world with ⟨e | found, w⟩
    · rw [hinspect] at hrun
      cases hrun
    · rw [hinspect] at hrun
      cases hrun
      refine ⟨rfl, fun again hworld => ⟨{ again with world := w }, ?_, rfl, rfl⟩⟩
      rw [run_running, hworld, hinspect]
  happen e := steady_of_run fun s a s' hrun => by
    cases hrun
    exact ⟨rfl, fun again hworld => ⟨{ again with events := e :: again.events }, rfl, hworld, rfl⟩⟩
  tentatively := Steady.tentatively

end Steady

/-! ## Type variables -/

namespace Context

variable {ctx : Context} {name : String} {v : Value} {path : Path} {s : Scene} {b : Bindings}

/-- What another slot has bound decides, and stays as it is. -/
theorem run_judgeTypeVar_foreign {binding : Binding} (hb : s.bindings = some b) (hbound : b.get? name = some binding)
    (horigin : binding.origin ≠ path.slot) :
    (ctx.judgeTypeVar name v path).run.run s =
      (.ok (if ctx.isInstanceOfAny v binding.types then .yes
        else .no { mismatch v (.typeVar name) path (.boundElsewhere name binding.types binding.origin) with
          conflict := some name }), s) := by
  have hne : (binding.origin == path.slot) = false := beq_eq_false_iff_ne.mpr horigin
  unfold judgeTypeVar
  rw [run_bind, run_get]
  simp only [hb, hbound, hne]
  split <;> rfl

/-- No further class needs to be bound for a value. -/
def Knows (ctx : Context) (v : Value) (cs : List ClassId) : Prop :=
  ctx.isInstanceOfAny v cs = true ∨ v.classOf ∈ cs

theorem Knows.mono {cs ds : List ClassId} (h : ctx.Knows v cs) (hsub : cs ⊆ ds) : ctx.Knows v ds := by
  refine h.imp (fun hany => ?_) fun hmem => hsub hmem
  obtain ⟨c, hc, hinstance⟩ := List.any_eq_true.mp hany
  exact List.any_eq_true.mpr ⟨c, hsub hc, hinstance⟩

/-- Where no other slot has bound the variable, every value is accepted, and no further class is needed for it. -/
theorem run_judgeTypeVar_own (ctx : Context) (v : Value) (hb : s.bindings = some b)
    (hown : ∀ binding, b.get? name = some binding → binding.origin = path.slot) :
    ∃ b' binding, (ctx.judgeTypeVar name v path).run.run s = (.ok .yes, { s with bindings := some b' }) ∧
      b'.get? name = some binding ∧ binding.origin = path.slot ∧ ctx.Knows v binding.types := by
  unfold judgeTypeVar
  rw [run_bind, run_get]
  simp only [hb]
  cases hbound : b.get? name with
  | none =>
    exact ⟨_, _, rfl, Bindings.get?_set_self b name _, rfl, .inr List.mem_cons_self⟩
  | some binding =>
    have horigin := hown binding hbound
    by_cases hany : ctx.isInstanceOfAny v binding.types = true
    · refine ⟨b, binding, ?_, hbound, horigin, .inl hany⟩
      simp only [hany, if_true, ← hb]
      rfl
    · have hslot : (binding.origin == path.slot) = true := beq_iff_eq.mpr horigin
      obtain ⟨wide, hwide, horigin', hmem⟩ : ∃ wide, ((b.widen? name v.classOf).getD b).get? name = some wide ∧
          wide.origin = binding.origin ∧ v.classOf ∈ wide.types := by
        simp only [Bindings.widen?, hbound, Option.map_some, Option.getD_some]
        split
        · rename_i hmem
          exact ⟨binding, hbound, rfl, by simpa using hmem⟩
        · exact ⟨_, Bindings.get?_set_self b name _, rfl, by simp⟩
      refine ⟨_, wide, ?_, hwide, horigin'.trans horigin, .inr hmem⟩
      simp only [hany, hslot, if_true]
      rfl

/-- A value that needs no further class changes nothing. -/
theorem run_judgeTypeVar_known {binding : Binding} (hb : s.bindings = some b) (hbound : b.get? name = some binding)
    (horigin : binding.origin = path.slot) (hknows : ctx.Knows v binding.types) :
    (ctx.judgeTypeVar name v path).run.run s = (.ok .yes, s) := by
  unfold judgeTypeVar
  rw [run_bind, run_get]
  simp only [hb, hbound]
  by_cases hany : ctx.isInstanceOfAny v binding.types = true
  · simp only [hany, if_true]
    rfl
  · have hslot : (binding.origin == path.slot) = true := beq_iff_eq.mpr horigin
    have hsame : (b.widen? name v.classOf).getD b = b := by
      have hmem : binding.types.contains v.classOf = true := by simpa using hknows.resolve_left hany
      rw [Bindings.widen?, hbound, Option.map_some, if_pos hmem, Option.getD_some]
    simp only [hany, hslot, if_true, hsame]
    rw [← hb]
    rfl

theorem steady_judgeTypeVar (ctx : Context) (name : String) (v : Value) (path : Path) :
    Steady path.slot Verdict (ctx.judgeTypeVar name v path) := by
  intro s b verdict s' hb hrun
  have hlaw : (growthLaw (· = path.slot) fun _ => True).Obeyed (ctx.judgeTypeVar name v path) :=
    judgeTypeVar_grows (by rfl) trivial v
  obtain ⟨b', hb', hgrows⟩ := hlaw.exists_grows hb
  rw [hrun] at hb'
  refine ⟨b', hb', hgrows.agrees, hgrows.covers, fun again c hworld hc hagrees => ?_⟩
  by_cases hforeign : ∃ binding, b.get? name = some binding ∧ binding.origin ≠ path.slot
  · obtain ⟨binding, hbound, horigin⟩ := hforeign
    have hbound' : c.get? name = some binding := (hagrees name binding horigin).mp hbound
    rw [run_judgeTypeVar_foreign hb hbound horigin] at hrun
    obtain ⟨hverdict, rfl⟩ := Prod.mk.inj hrun
    exact ⟨again, c, by rw [run_judgeTypeVar_foreign hc hbound' horigin, hverdict], hworld, hc, fun _ => rfl⟩
  · have hown : ∀ binding, b.get? name = some binding → binding.origin = path.slot :=
      fun binding hbound => by_contra fun horigin => hforeign ⟨binding, hbound, horigin⟩
    have hown' : ∀ binding, c.get? name = some binding → binding.origin = path.slot :=
      fun binding hbound => by_contra fun horigin =>
        hforeign ⟨binding, (hagrees name binding horigin).mpr hbound, horigin⟩
    obtain ⟨after, binding, hfirst, hbound, horigin, hknows⟩ := run_judgeTypeVar_own ctx v hb hown
    obtain ⟨rfl, rfl⟩ : Verdict.yes = verdict ∧ { s with bindings := some after } = s' := by
      rw [hrun] at hfirst
      cases hfirst
      exact ⟨rfl, rfl⟩
    obtain rfl := Option.some.inj hb'
    obtain ⟨c', -, hsecond, -⟩ := run_judgeTypeVar_own ctx v hc hown'
    refine ⟨{ again with bindings := some c' }, c', hsecond, hworld, rfl, fun hcovers => ?_⟩
    -- all that the first run has bound is there, the class of this value too
    obtain ⟨wide, hwide, horigin', htypes⟩ := hcovers name binding hbound horigin
    rw [run_judgeTypeVar_known hc hwide horigin' (hknows.mono htypes)] at hsecond
    have hkept : again.bindings = some c' := congrArg (fun run => run.2.bindings) hsecond
    exact Option.some.inj (hkept.symm.trans hc)

/-- Judging the value in a slot is steady. -/
theorem satisfies_steady (ctx : Context) (v : Value) (t : TypeExpr) (slot : String) :
    Steady slot Verdict (ctx.satisfies v t slot) := by
  refine (pervades_steady slot).satisfies (fun u _ => admits_of_typeVar fun x _ w steps => ?_) v
  exact steady_judgeTypeVar ctx x w ⟨slot, steps⟩

end Context

/-! ## Judging again in a session -/

namespace Session

/-- What judging a value in a slot comes to in a session, from the given bindings. -/
def verdictFrom (s : Session) (receiver : Option Value) (v : Value) (t : TypeExpr) (slot : String) (b : Bindings) :
    Except Failure (Except Fault Verdict × Option Bindings) :=
  ((judging receiver (some b) fun ctx => ctx.satisfies v t slot).run.run s).1

section Verdicts

variable {s s' : Session} {receiver : Option Value} {v : Value} {t : TypeExpr} {slot : String} {b b' : Bindings}
  {verdict : Verdict}

theorem verdictFrom_eq_ok_iff {after : Option Bindings} :
    s.verdictFrom receiver v t slot b = .ok (.ok verdict, after) ↔
      ∃ scene, ((s.context receiver).satisfies v t slot).run.run { world := s.world, bindings := some b } =
        (.ok verdict, scene) ∧ scene.bindings = after := by
  obtain ⟨log, hjudging⟩ := run_judging receiver (some b) (fun ctx => ctx.satisfies v t slot) s
  rw [verdictFrom, hjudging]
  generalize ((s.context receiver).satisfies v t slot).run.run { world := s.world, bindings := some b } = run
  obtain ⟨result, scene⟩ := run
  constructor
  · intro h
    cases h
    exact ⟨scene, rfl, rfl⟩
  · rintro ⟨scene', hrun, rfl⟩
    cases hrun
    rfl

/-- What the slot itself has bound does not bear on the verdict. -/
theorem verdictFrom_of_agrees (h : s.verdictFrom receiver v t slot b = .ok (.ok verdict, some b')) {c : Bindings}
    (hagrees : b.Agrees slot c) : ∃ c', s.verdictFrom receiver v t slot c = .ok (.ok verdict, some c') := by
  obtain ⟨scene, hrun, -⟩ := verdictFrom_eq_ok_iff.mp h
  obtain ⟨_, -, -, -, hagain⟩ := (s.context receiver).satisfies_steady v t slot _ b verdict scene rfl hrun
  obtain ⟨last, c', hlast, -, hc', -⟩ := hagain { world := s.world, bindings := some c } c rfl rfl hagrees
  exact ⟨c', verdictFrom_eq_ok_iff.mpr ⟨last, hlast, hc'⟩⟩

/-- From the bindings that are left, in the same session, the verdict is the same and nothing is bound. -/
theorem verdictFrom_settled (h : s.verdictFrom receiver v t slot b = .ok (.ok verdict, some b')) :
    s.verdictFrom receiver v t slot b' = .ok (.ok verdict, some b') := by
  obtain ⟨scene, hrun, hb'⟩ := verdictFrom_eq_ok_iff.mp h
  obtain ⟨after, hafter, hagrees, -, hagain⟩ :=
    (s.context receiver).satisfies_steady v t slot _ b verdict scene rfl hrun
  obtain rfl := Option.some.inj (hb'.symm.trans hafter)
  obtain ⟨last, c', hlast, -, hc', hsettled⟩ := hagain { world := s.world, bindings := some b' } b' rfl rfl hagrees
  obtain rfl := hsettled (.refl slot b')
  exact verdictFrom_eq_ok_iff.mpr ⟨last, hlast, hc'⟩

/-- What a judgement leaves in the registry does not bear on the next: if the state of the program is the same, so is
what is found from the same bindings. -/
theorem verdictFrom_after
    (hrun : (judging receiver (some b) fun ctx => ctx.satisfies v t slot).run.run s = (.ok (.ok verdict, some b'), s'))
    (hworld : s'.world = s.world) : s'.verdictFrom receiver v t slot b = .ok (.ok verdict, some b') := by
  have hfirst : s.verdictFrom receiver v t slot b = .ok (.ok verdict, some b') := by rw [verdictFrom, hrun]
  obtain ⟨log, hjudging⟩ := run_judging receiver (some b) (fun ctx => ctx.satisfies v t slot) s
  have hleft := congrArg Prod.snd (hjudging.symm.trans hrun)
  dsimp only at hleft
  generalize ((s.context receiver).satisfies v t slot).run.run { world := s.world, bindings := some b } = run at hleft
  have hcontext : s'.context receiver = (s.context receiver).consulting (s.registry.replay run.2.events.reverse).1 := by
    unfold context Context.consulting
    rw [hworld, ← hleft]
  have halike : (s.context receiver).registry.Alike _ := s.registry.alike_replay run.2.events.reverse
  rw [verdictFrom_eq_ok_iff, hcontext, Context.satisfies_alike halike, hworld]
  exact verdictFrom_eq_ok_iff.mp hfirst

end Verdicts

/-- The verdict on a slot depends on what other slots have bound and not on what the slot itself has bound, and
judging again is idle.  What comes after the first judgement needs that looking into the value has left nothing behind
that shows: the state of the program is as before, or at least the value is judged from the same bindings as it was. -/
theorem recheck_idle {s s' : Session} {receiver : Option Value} {v : Value} {t : TypeExpr} {slot : String}
    {b b' : Bindings} {verdict : Verdict}
    (hrun : (judging receiver (some b) fun ctx => ctx.satisfies v t slot).run.run s =
      (.ok (.ok verdict, some b'), s')) :
    (∀ c, b.Agrees slot c → ∃ c', s.verdictFrom receiver v t slot c = .ok (.ok verdict, some c')) ∧
    (s'.world = s.world ∨ s'.verdictFrom receiver v t slot b = .ok (.ok verdict, some b') →
      (∀ c, b.Agrees slot c → ∃ c', s'.verdictFrom receiver v t slot c = .ok (.ok verdict, some c')) ∧
      s'.verdictFrom receiver v t slot b' = .ok (.ok verdict, some b')) := by
  have hfirst : s.verdictFrom receiver v t slot b = .ok (.ok verdict, some b') := by rw [verdictFrom, hrun]
  refine ⟨fun c hagrees => verdictFrom_of_agrees hfirst hagrees, fun hquiet => ?_⟩
  have hsecond : s'.verdictFrom receiver v t slot b = .ok (.ok verdict, some b') :=
    hquiet.elim (verdictFrom_after hrun) id
  exact ⟨fun c hagrees => verdictFrom_of_agrees hsecond hagrees, verdictFrom_settled hsecond⟩

/-- Two values for a type variable and one for a class that it is not of. -/
def mixed : Value := .sequence .tuple [.int 1, .str "a", .str "b"]

def mixedType : TypeExpr := .tuple [.typeVar "T", .typeVar "T", .classRef "int" []]

/-- What judging the three in a slot leaves bound, though they are rejected. -/
def mixedBindings : Bindings := ⟨[("T", ⟨[.builtin "int", .builtin "str"], "x"⟩)]⟩

theorem mixed_rejected :
    ∃ m s', (judging none (some .empty) fun ctx => ctx.satisfies mixed mixedType "x").run.run {} =
      (.ok (.ok (.no m), some mixedBindings), s') ∧ s'.world = {} :=
  ⟨_, _, rfl, rfl⟩

theorem recheck_idle_mixed :
    ∃ m s', (judging none (some .empty) fun ctx => ctx.satisfies mixed mixedType "x").run.run {} =
      (.ok (.ok (.no m), some mixedBindings), s') ∧ s'.world = {} ∧
      Bindings.empty.Agrees "x" ⟨[("T", ⟨[.builtin "float"], "x"⟩)]⟩ ∧
      (∃ c', verdictFrom {} none mixed mixedType "x" ⟨[("T", ⟨[.builtin "float"], "x"⟩)]⟩ = .ok (.ok (.no m), some c')) ∧
      s'.verdictFrom none mixed mixedType "x" mixedBindings = .ok (.ok (.no m), some mixedBindings) := by
  have hagrees : Bindings.empty.Agrees "x" ⟨[("T", ⟨[.builtin "float"], "x"⟩)]⟩ := by
    intro y binding horigin
    constructor
    · rintro ⟨⟩
    · intro hbound
      by_cases hy : y = "T"
      · subst hy
        cases hbound
        exact absurd rfl horigin
      · simp [Bindings.get?, List.lookup_cons, beq_eq_false_iff_ne.mpr hy] at hbound
  obtain ⟨m, s', hrun, hworld⟩ := mixed_rejected
  obtain ⟨hother, hagain⟩ := recheck_idle hrun
  exact ⟨m, s', hrun, hworld, hagrees, hother _ hagrees, (hagain (.inl hworld)).2⟩

end Session

end Conformance
