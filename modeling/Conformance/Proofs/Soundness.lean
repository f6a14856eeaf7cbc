import Conformance.Proofs.Descent

/-!
# Judgements are sound

A judgement that accepts a built-in value leaves bindings under which the value satisfies the type, and goes on to
do so whatever is bound later.  It never touches the state of the program, accepted or not.

What satisfying a type means knows nothing of the order in which judging binds, tries and gives up.  What links the two
is `Judging.Sound`: from any bindings a computation goes on to bindings that extend them, and if it accepts, what it
stands for holds there.  Each way to put judgements together keeps that (`rules_sound`), so that it can be followed down
a judgement.
-/

namespace Conformance

open Run

namespace Judging

variable {α : Type} {w : World}

/-! ## Steps that bind nothing -/

/-- The computation leaves the program and the bindings alone, and what it gives has the property. -/
def Steady (w : World) (m : Judging α) (Q : α → Prop) : Prop :=
  ∀ s, s.world = w → ∀ a s', m.run.run s = (.ok a, s') → s'.world = w ∧ s'.bindings = s.bindings ∧ Q a

theorem Inspects.steady {E : Fault → Prop} {m : Judging α} {Q : α → Prop} (hm : Inspects w E m Q) : Steady w m Q := by
  intro s hs a s' hrun
  obtain ⟨result, hgives, hresult, -⟩ := hm
  obtain ⟨events, hgives⟩ := hgives s hs
  cases hgives.symm.trans hrun
  exact ⟨hs, rfl, hresult a rfl⟩

theorem steady_running {Q : α → Prop} {run : Run α} (h : Quiet w run Q) : Steady w (running run) Q :=
  (inspects_running h).steady

/-! ## Judgements -/

/-- From any bindings the judgement goes on to some that extend them, without touching the program; and what it
accepts holds there. -/
def Sound (w : World) (m : Judging Verdict) (P : Bindings → Prop) : Prop :=
  ∀ s b, s.world = w → s.bindings = some b → ∀ verdict s', m.run.run s = (.ok verdict, s') →
    s'.world = w ∧ ∃ b', s'.bindings = some b' ∧ b.Extends b' ∧ (verdict.isOk = true → P b')

variable {P Q : Bindings → Prop}

theorem Sound.mono {m : Judging Verdict} (hm : Sound w m P) (h : ∀ b, P b → Q b) : Sound w m Q := by
  intro s b hs hb verdict s' hrun
  obtain ⟨hworld, b', hb', hextends, hP⟩ := hm s b hs hb verdict s' hrun
  exact ⟨hworld, b', hb', hextends, fun hok => h b' (hP hok)⟩

theorem sound_yes (h : ∀ b, P b) : Sound w (pure .yes) P := by
  intro s b hs hb verdict s' hrun
  cases hrun
  exact ⟨hs, b, hb, .refl b, fun _ => h b⟩

theorem sound_no (m : Mismatch) : Sound w (pure (.no m)) P := by
  intro s b hs hb verdict s' hrun
  cases hrun
  exact ⟨hs, b, hb, .refl b, fun hok => nomatch hok⟩

/-- One judgement after the other: what the first has accepted still holds when the second is done. -/
theorem Sound.andThen {first second : Judging Verdict} (hfirst : Sound w first P) (hlasting : Bindings.Lasting P)
    (hsecond : Sound w second Q) : Sound w (first.andThen second) fun b => P b ∧ Q b := by
  intro s b hs hb verdict s' hrun
  obtain ⟨v, mid, hv, hrest⟩ := run_bind_ok hrun
  obtain ⟨hworld, b₁, hb₁, hextends, hP⟩ := hfirst s b hs hb v mid hv
  cases hok : v.isOk with
  | false =>
    simp only [hok] at hrest
    cases hrest
    exact ⟨hworld, b₁, hb₁, hextends, fun h => absurd (hok.symm.trans h) Bool.false_ne_true⟩
  | true =>
    simp only [hok] at hrest
    obtain ⟨hworld', b₂, hb₂, hextends', hQ⟩ := hsecond mid b₁ hworld hb₁ verdict s' hrest
    exact ⟨hworld', b₂, hb₂, hextends.trans hextends',
      fun hverdict => ⟨hlasting b₁ b₂ hextends' (hP hok), hQ hverdict⟩⟩

theorem Sound.tentatively {m : Judging Verdict} (hm : Sound w m P) : Sound w m.tentatively P := by
  intro s b hs hb verdict s' hrun
  rw [run_tentatively] at hrun
  rcases hr : m.run.run s with ⟨e | v, after⟩
  · rw [hr] at hrun
    cases hrun
  · rw [hr] at hrun
    obtain ⟨hworld, b', hb', hextends, hP⟩ := hm s b hs hb v after hr
    cases hok : v.isOk with
    | true =>
      simp only [hok] at hrun
      cases hrun
      exact ⟨hworld, b', hb', hextends, hP⟩
    | false =>
      simp only [hok] at hrun
      cases hrun
      exact ⟨hworld, b, hb, .refl b, fun h => absurd (hok.symm.trans h) Bool.false_ne_true⟩

/-- Of the alternatives, the one that accepts leaves its bindings. -/
theorem sound_firstOf {ι : Type} {xs : List ι} {f : ι → Judging Verdict} {P : ι → Bindings → Prop}
    (rejected : List Mismatch → Mismatch) (failures : List Mismatch) (h : ∀ x ∈ xs, Sound w (f x) (P x)) :
    Sound w (firstOf rejected failures (xs.map f)) fun b => ∃ x ∈ xs, P x b := by
  induction xs generalizing failures with
  | nil => exact sound_no _
  | cons x xs ih =>
    intro s b hs hb verdict s' hrun
    rw [List.map_cons, firstOf] at hrun
    obtain ⟨v, mid, hv, hrun⟩ := run_bind_ok hrun
    obtain ⟨hworld, b₁, hb₁, hextends, hP⟩ := (h x List.mem_cons_self).tentatively s b hs hb v mid hv
    have haccepted : v.isOk = true → s'.world = w ∧ ∃ b', s'.bindings = some b' ∧ b.Extends b'
        ∧ (verdict.isOk = true → ∃ y ∈ x :: xs, P y b') := by
      intro hok
      cases v with
      | no m => cases hok
      | _ =>
        cases hrun
        exact ⟨hworld, b₁, hb₁, hextends, fun _ => ⟨x, List.mem_cons_self, hP rfl⟩⟩
    cases v with
    | no m =>
      have hrest := ih (failures ++ [m]) fun y hy => h y (List.mem_cons_of_mem x hy)
      obtain ⟨hworld', b₂, hb₂, hextends', hQ⟩ := hrest mid b₁ hworld hb₁ verdict s' hrun
      refine ⟨hworld', b₂, hb₂, hextends.trans hextends', fun hok => ?_⟩
      obtain ⟨y, hy, hPy⟩ := hQ hok
      exact ⟨y, List.mem_cons_of_mem x hy, hPy⟩
    | yes => exact haccepted rfl
    | maybe name => exact haccepted rfl

theorem rules_sound (w : World) (slot : String) :
    Rules w (fun _ => True) slot slot (alone fun P m => Sound w m P) where
  mono := Sound.mono
  accepted := sound_yes
  rejected _ _ _ _ := sound_no _
  inspect {α P m m' f f' result} hm _ _ hf := by
    intro s b hs hb verdict s' hrun
    obtain ⟨events, hgives⟩ := hm s hs
    obtain ⟨a, mid, hfirst, hrest⟩ := run_bind_ok hrun
    cases hgives.symm.trans hfirst
    exact hf a rfl { s with events } b hs hb verdict s' hrest
  world {P f g} h := by
    rintro s b rfl hb verdict s' hrun
    exact h s b rfl hb verdict s' hrun
  andThen hlasting hfirst hsecond := Sound.andThen hfirst hlasting hsecond

end Judging

namespace Context

open Judging

variable {ctx : Context} {w : World} {cells : Nat → Prop} {v : Value} {path : Path}

/-! ## Type variables -/

theorem isInstance_classOf (ctx : Context) (v : Value) : ctx.isInstance v v.classOf = true := by
  unfold isInstance Program.isInstance Program.isSubclass
  simp

theorem isInstanceOfAny_of_mem {cs : List ClassId} (h : v.classOf ∈ cs) : ctx.isInstanceOfAny v cs = true :=
  List.any_eq_true.2 ⟨v.classOf, h, ctx.isInstance_classOf v⟩

theorem get?_widen {b : Bindings} {name : String} {c : ClassId} {old : Binding} (hold : b.get? name = some old) :
    ∃ new, ((b.widen? name c).getD b).get? name = some new ∧ c ∈ new.types := by
  simp only [Bindings.widen?, hold, Option.map_some, Option.getD_some]
  split
  · rename_i hmem
    exact ⟨old, hold, by simpa using hmem⟩
  · exact ⟨_, Bindings.get?_set_self b name _, by simp⟩

/-- However a type variable accepts a value, the value is an instance of its classes afterwards. -/
theorem sound_judgeTypeVar (hcell : v.isCell = false) (name : String) :
    Sound w (ctx.judgeTypeVar name v path) fun b => ctx.Sat w b v (.typeVar name) := by
  have hsat : ∀ {b : Bindings} {binding : Binding}, b.get? name = some binding →
      ctx.isInstanceOfAny v binding.types = true → ctx.Sat w b v (.typeVar name) :=
    fun hbound h => .typeVar hbound (by rwa [World.resolve_of_isCell hcell])
  rintro ⟨world, bindings, events⟩ b hs hb verdict s' hrun
  cases hb
  unfold judgeTypeVar at hrun
  rw [run_bind, run_get] at hrun
  dsimp only at hrun
  cases hbound : b.get? name with
  | none =>
    rw [hbound] at hrun
    cases hrun
    exact ⟨hs, _, rfl, Bindings.grows_bind hbound trivial trivial,
      fun _ => hsat (Bindings.get?_set_self b name _) (isInstanceOfAny_of_mem (by simp))⟩
  | some binding =>
    rw [hbound] at hrun
    dsimp only at hrun
    split at hrun
    · rename_i hinstance
      cases hrun
      exact ⟨hs, b, rfl, .refl b, fun _ => hsat hbound hinstance⟩
    split at hrun
    · cases hrun
      obtain ⟨new, hnew, hmem⟩ := get?_widen (c := v.classOf) hbound
      exact ⟨hs, _, rfl, Bindings.grows_widen hbound trivial trivial,
        fun _ => hsat hnew (isInstanceOfAny_of_mem hmem)⟩
    · cases hrun
      exact ⟨hs, b, rfl, .refl b, fun h => nomatch h⟩

/-! ## The whole judgement -/

/-- A way to judge that is sound for built-in values. -/
def SoundJudge (ctx : Context) (w : World) (cells : Nat → Prop) (judge : Judge) : Prop :=
  ∀ {v : Value} (t : TypeExpr) (path : Path), v.BuiltIn cells →
    Sound w (judge v t path) fun b => ctx.Sat w b v t

section Separate

variable (hp : ctx.program.Separate) (hw : w.BuiltIn cells) (hlimit : ctx.sampleSize = none)
include hp hw hlimit

/-- Without a limit, all elements are looked at. -/
theorem descent_sound (slot : String) :
    Descent ctx (ctx.variant ctx.sampleSize ctx.receiver) w (fun _ => True) (·.BuiltIn cells) slot slot
      (alone fun P m => Sound w m P) where
  toRules := rules_sound w slot
  union {F judge judge' ts v steps} h := sound_firstOf _ [] h
  base kind v steps hv hcell :=
    (rules_sound w slot).judgeBase hp hw hv (fun _ _ => trivial) steps fun h b => .base (by rwa [World.resolve_of_isCell hcell])
  typeVar name v steps hcell := sound_judgeTypeVar hcell name
  sampled {F v items look look'} hv hcollection hitems hlasting hlook := by
    refine (rules_sound w slot).mono ((rules_sound w slot).sampled hlasting (hp.yields hv hcollection hitems) hlook
      (Value.isCell_of_isCollection hcollection) fun size _ => ?_) fun b h => h hlimit
    rw [hlimit]
    refine ⟨fun e he => (by cases he), fun plan hplan => ?_⟩
    cases hplan
    trivial

/-- However deep a judgement goes, it is sound. -/
theorem sound_judge (fuel : Nat) : ctx.SoundJudge w cells (ctx.judge fuel) := by
  suffices h : ∀ (v : Value) (t : TypeExpr) (slot : String), v.BuiltIn cells →
      Descent.Reaches ctx w slot slot (alone fun P m => Sound w m P) (ctx.judge fuel) (ctx.judge fuel) v t from
    fun {v} t path hv => h v t path.slot hv path.steps
  induction fuel with
  | zero => exact fun v t slot hv steps => (rules_sound w slot).faulted trivial
  | succ fuel ih =>
    intro v t slot hv steps
    have hresolved := (hw.resolve hv).1
    exact (descent_sound hp hw hlimit slot).judgeUnlessDouble steps hp (hw.domain.grounds hw) hresolved hv
      (fun _ _ => trivial) (fun _ _ => trivial) (fun u _ => ih _ u slot hresolved) fun u _ x hx => ih x u slot hx

/-- A value that is accepted in a slot satisfies its type under the bindings that are left. -/
theorem sound_satisfies (hv : v.BuiltIn cells) (t : TypeExpr) (slot : String) :
    Sound w (ctx.satisfies v t slot) fun b => ctx.Sat w b v t :=
  sound_judge hp hw hlimit _ t ⟨slot, []⟩ hv

end Separate

end Context

end Conformance
