import Conformance.Proofs.Slots
import Conformance.Proofs.Soundness
import Conformance.Proofs.Succession

/-!
# Resolution is sound

The signature that a call is found to match is one that it conforms to, under the bindings that are reported with
it: its arguments pair up with the parameters, and each has its type; the block is there when it has to be, was
called when it had to be, and each of its calls took and returned what it should; and the call returned a value of
the type of the result, or raised where that is what it is declared to do.  All of this is with one assignment of
classes to the type variables.
-/

namespace Conformance

open Judging Run

variable {i : Invocation}

/-! ## Built-in calls -/

/-- All that the block took and returned is built in. -/
structure BlockCall.BuiltIn (cells : Nat → Prop) (c : BlockCall) : Prop where
  args : ∀ v ∈ c.args, v.BuiltIn cells
  keywords : ∀ kv ∈ c.keywords, kv.2.BuiltIn cells
  result : ∀ v, c.outcome = .ok v → v.BuiltIn cells

/-- All that was passed, returned and raised in the call is built in. -/
structure Invocation.BuiltIn (cells : Nat → Prop) (i : Invocation) : Prop where
  args : ∀ v ∈ i.args, v.BuiltIn cells
  keywords : ∀ kv ∈ i.keywords, kv.2.BuiltIn cells
  calls : ∀ c ∈ i.blockCalls, c.BuiltIn cells
  result : ∀ v, i.outcome = some (.ok v) → v.BuiltIn cells
  error : ∀ r, i.outcome = some (.error r) → r.toValue.BuiltIn cells

namespace Context

/-! ## Conforming to a signature -/

/-- The arguments pair up with the parameters, and each has the type of its parameter. -/
def ArgumentsConform (ctx : Context) (w : World) (B : Bindings) (params : Params TypeExpr) (label : String)
    (args : List Value) (keywords : List (String × Value)) : Prop :=
  ∃ slots, params.pair label args keywords = .ok slots ∧ ∀ slot ∈ slots, ctx.Sat w B slot.value slot.param.type

/-- One call of the block took and returned what it should. -/
structure BlockCallConforms (ctx : Context) (w : World) (B : Bindings) (b : Block TypeExpr) (c : BlockCall) :
    Prop where
  arguments : ctx.ArgumentsConform w B b.params "block argument" c.args c.keywords
  result : ∀ v, c.outcome = .ok v → ctx.Sat w B v b.result

/-- The call conforms to the signature, where the bindings say what its type variables stand for. -/
structure Conforms (ctx : Context) (w : World) (B : Bindings) (s : Signature) (i : Invocation) : Prop where
  arguments : ctx.ArgumentsConform w B s.params "argument" i.args i.keywords
  undeclared : s.block = none → i.hasBlock = false
  absent : ∀ b, s.block = some b → i.hasBlock = false → b.required = false
  called : ∀ b, s.block = some b → i.hasBlock = true → b.required = true → i.blockCalls ≠ []
  calls : ∀ b, s.block = some b → i.hasBlock = true → ∀ c ∈ i.blockCalls, ctx.BlockCallConforms w B b c
  returned : i.error? = none → ctx.Sat w B i.result s.result
  raised : i.error?.isSome = true → s.declaresError = true

end Context

namespace Check

variable {cells : Nat → Prop} {text : String} {s : Signature} {b : Block TypeExpr}

/-- All that is looked at in the check is built in. -/
def BuiltIn (cells : Nat → Prop) : Check → Prop
  | slot _ v _ => v.BuiltIn cells
  | fails _ => True
  | raised r _ => r.toValue.BuiltIn cells

/-- The check succeeds, where the bindings say what the type variables stand for. -/
def Holds (ctx : Context) (w : World) (B : Bindings) : Check → Prop
  | slot _ v t => ctx.Sat w B v t
  | fails _ | raised _ _ => False

theorem builtIn_ofPair {params : Params TypeExpr} {label : String} {args : List Value}
    {keywords : List (String × Value)} {slots : List (Conformance.Slot TypeExpr Value)}
    {slot : Conformance.Slot TypeExpr Value} (hpair : params.pair label args keywords = .ok slots)
    (hslot : slot ∈ slots) (hargs : ∀ v ∈ args, v.BuiltIn cells) (hkeywords : ∀ kv ∈ keywords, kv.2.BuiltIn cells) :
    slot.value.BuiltIn cells := by
  rcases Params.value_of_pair hpair hslot with hvalue | ⟨kv, hkv, hvalue⟩
  · exact hargs _ hvalue
  · exact hvalue ▸ hkeywords kv hkv

theorem builtIn_result (hi : i.BuiltIn cells) : i.result.BuiltIn cells := by
  unfold Invocation.result
  split
  · rename_i v hv
    exact hi.result v hv
  · exact .atom rfl

theorem outcome_of_error? {r : Raised} (h : i.error? = some r) : i.outcome = some (.error r) := by
  unfold Invocation.error? at h
  split at h
  · cases h
    assumption
  · cases h

theorem builtIn_ofSignature (s : Signature) (hi : i.BuiltIn cells) : ∀ c ∈ ofSignature s i, c.BuiltIn cells := by
  intro c hc
  cases origin_ofSignature c hc with
  | argument hpair hslot => exact builtIn_ofPair hpair hslot hi.args hi.keywords
  | blockArgument _ hcall hpair hslot =>
    exact builtIn_ofPair hpair hslot (hi.calls _ hcall).args (hi.calls _ hcall).keywords
  | blockResult _ hcall hv => exact (hi.calls _ hcall).result _ hv
  | result _ => exact builtIn_result hi
  | error hr => exact hi.error _ (outcome_of_error? hr)
  | shape _ => trivial

/-! ## What the checks come to -/

variable {ctx : Context} {w : World} {B : Bindings}

theorem not_holds_fails {d : Diagnostic} (h : ∀ c ∈ [Check.fails d], c.Holds ctx w B) : False :=
  h _ (List.mem_singleton_self _)

theorem sat_of_ofSlots {suffix : String} {slots : List (Conformance.Slot TypeExpr Value)}
    (h : ∀ c ∈ ofSlots suffix slots, c.Holds ctx w B) :
    ∀ slot ∈ slots, ctx.Sat w B slot.value slot.param.type :=
  fun slot hslot => h (.slot (slot.label ++ suffix) slot.value slot.param.type) (List.mem_map_of_mem hslot)

theorem conform_of_ofArguments (h : ∀ c ∈ ofArguments text s i, c.Holds ctx w B) :
    ctx.ArgumentsConform w B s.params "argument" i.args i.keywords := by
  unfold ofArguments at h
  split at h
  · exact (not_holds_fails h).elim
  · rename_i slots hpair
    exact ⟨slots, hpair, sat_of_ofSlots h⟩

theorem conforms_of_ofBlockCall {number : Nat} {call : BlockCall}
    (h : ∀ c ∈ ofBlockCall text b number call, c.Holds ctx w B) : ctx.BlockCallConforms w B b call := by
  unfold ofBlockCall at h
  dsimp only at h
  split at h
  · exact (not_holds_fails h).elim
  · rename_i slots hpair
    refine ⟨⟨slots, hpair, sat_of_ofSlots fun c hc => h c (List.mem_append_left _ hc)⟩, fun v hv => ?_⟩
    rw [hv] at h
    exact h _ (List.mem_append_right _ (List.mem_singleton_self _))

theorem undeclared_of_ofBlock (h : ∀ c ∈ ofBlock text s i, c.Holds ctx w B) (hblock : s.block = none) :
    i.hasBlock = false := by
  unfold ofBlock at h
  rw [hblock] at h
  cases hgiven : i.hasBlock with
  | false => rfl
  | true =>
    rw [hgiven] at h
    exact (not_holds_fails h).elim

theorem absent_of_ofBlock (h : ∀ c ∈ ofBlock text s i, c.Holds ctx w B) (hblock : s.block = some b)
    (hgiven : i.hasBlock = false) : b.required = false := by
  unfold ofBlock at h
  rw [hblock, hgiven] at h
  cases hrequired : b.required with
  | false => rfl
  | true =>
    simp only [hrequired] at h
    exact (not_holds_fails h).elim

theorem called_of_ofBlock (h : ∀ c ∈ ofBlock text s i, c.Holds ctx w B) (hblock : s.block = some b)
    (hgiven : i.hasBlock = true) :
    (b.required = true → i.blockCalls ≠ []) ∧ ∀ c ∈ i.blockCalls, ctx.BlockCallConforms w B b c := by
  unfold ofBlock at h
  simp only [hblock, hgiven, Bool.not_true, Bool.false_eq_true, if_false] at h
  split at h
  · exact (not_holds_fails h).elim
  · rename_i hcalled
    refine ⟨fun hrequired hnone => hcalled (by rw [hrequired, hnone]; rfl), fun c hc => ?_⟩
    obtain ⟨number, hnumber⟩ := List.mem_iff_getElem?.1 hc
    have hmem : (c, number) ∈ i.blockCalls.zipIdx := List.mem_zipIdx_iff_getElem?.2 hnumber
    exact conforms_of_ofBlockCall fun d hd => h d (List.mem_flatMap.2 ⟨(c, number), hmem, hd⟩)

/-- A call that passes all checks of a signature conforms to it. -/
theorem conforms_of_ofSignature (h : ∀ c ∈ ofSignature s i, c.Holds ctx w B) : ctx.Conforms w B s i := by
  have hblock : ∀ c ∈ ofBlock s.label s i, c.Holds ctx w B :=
    fun c hc => h c (List.mem_append_left _ (List.mem_append_right _ hc))
  have houtcome : ∀ c ∈ ofOutcome s i, c.Holds ctx w B := fun c hc => h c (List.mem_append_right _ hc)
  refine ⟨?_, undeclared_of_ofBlock hblock, fun b hb => absent_of_ofBlock hblock hb,
    fun b hb hgiven => (called_of_ofBlock hblock hb hgiven).1,
    fun b hb hgiven => (called_of_ofBlock hblock hb hgiven).2, fun hnone => ?_, fun hsome => ?_⟩
  · exact conform_of_ofArguments fun c hc => h c (List.mem_append_left _ (List.mem_append_left _ hc))
  · unfold ofOutcome at houtcome
    rw [hnone] at houtcome
    exact houtcome _ (List.mem_singleton_self _)
  · obtain ⟨r, hr⟩ := Option.isSome_iff_exists.1 hsome
    unfold ofOutcome at houtcome
    rw [hr] at houtcome
    by_contra hundeclared
    simp only [if_neg hundeclared] at houtcome
    exact houtcome _ (List.mem_singleton_self _)

end Check

namespace Context

variable {ctx : Context} {cells : Nat → Prop} {w : World}

/-! ## Runs -/

/-- What running checks comes to: the program is left alone, the bindings are extended, and if no check fails, all
of them hold under the bindings that are left. -/
theorem runChecks_sound (hp : ctx.program.Separate) (hlimit : ctx.sampleSize = none) (hw : w.BuiltIn cells)
    (text : String) {checks : List Check} (hchecks : ∀ c ∈ checks, c.BuiltIn cells) {s s' : Scene} {b : Bindings}
    {d : Option Diagnostic} (hs : s.world = w) (hb : s.bindings = some b)
    (hrun : (ctx.runChecks text checks).run.run s = (.ok d, s')) :
    s'.world = w ∧ ∃ b', s'.bindings = some b' ∧ b.Extends b' ∧
      (d = none → ∀ c ∈ checks, c.Holds ctx w b') := by
  induction checks generalizing s b with
  | nil =>
    cases hrun
    exact ⟨hs, b, hb, .refl b, fun _ _ hc => nomatch hc⟩
  | cons check checks ih =>
    have hhere := hchecks check List.mem_cons_self
    cases check with
    | fails d =>
      cases hrun
      exact ⟨hs, b, hb, .refl b, fun h => nomatch h⟩
    | raised r t =>
      obtain ⟨shown, mid, hshown, hrest⟩ := run_bind_ok hrun
      obtain ⟨hworld, hbindings, -⟩ := steady_running (hp.still_textOf hw hhere) s hs shown mid hshown
      cases hrest
      exact ⟨hworld, b, hbindings.trans hb, .refl b, fun h => nomatch h⟩
    | slot label v t =>
      obtain ⟨verdict, mid, hverdict, hrest⟩ := run_bind_ok hrun
      obtain ⟨hworld, b₁, hb₁, hextends, hsat⟩ :=
        sound_satisfies hp hw hlimit hhere t label s b hs hb verdict mid hverdict
      have hgoOn : verdict.isOk = true → (ctx.runChecks text checks).run.run mid = (.ok d, s') →
          s'.world = w ∧ ∃ b', s'.bindings = some b' ∧ b.Extends b' ∧
            (d = none → ∀ c ∈ Check.slot label v t :: checks, c.Holds ctx w b') := by
        intro hok hrun'
        obtain ⟨hworld', b₂, hb₂, hextends', hholds⟩ :=
          ih (fun c hc => hchecks c (List.mem_cons_of_mem _ hc)) hworld hb₁ hrun'
        refine ⟨hworld', b₂, hb₂, hextends.trans hextends', fun hd c hc => ?_⟩
        rcases List.mem_cons.1 hc with rfl | hc
        · exact (hsat hok).mono hextends'
        · exact hholds hd c hc
      cases verdict with
      | no m =>
        cases hrest
        exact ⟨hworld, b₁, hb₁, hextends, fun h => nomatch h⟩
      | yes => exact hgoOn rfl hrest
      | maybe name => exact hgoOn rfl hrest

/-- What checking one signature comes to, from whatever was bound before. -/
theorem checkSignature_sound (hp : ctx.program.Separate) (hlimit : ctx.sampleSize = none) (hw : w.BuiltIn cells)
    (hi : i.BuiltIn cells) {sig : Signature} {s s' : Scene} {d : Option Diagnostic} (hs : s.world = w)
    (hrun : (ctx.checkSignature i sig).run.run s = (.ok d, s')) :
    s'.world = w ∧ (d = none → ∃ B, s'.bindings = some B ∧ ctx.Conforms w B sig i) := by
  obtain ⟨_, start, hstart, hchecks⟩ := run_bind_ok hrun
  have hworld : start.world = w ∧ start.bindings = some .empty := by
    cases hstart
    exact ⟨hs, rfl⟩
  obtain ⟨hworld, B, hB, -, hholds⟩ :=
    runChecks_sound hp hlimit hw sig.label (Check.builtIn_ofSignature sig hi) hworld.1 hworld.2 hchecks
  exact ⟨hworld, fun hd => ⟨B, hB, Check.conforms_of_ofSignature (hholds hd)⟩⟩

/-- Signatures are tried in order, and none of the attempts touches the program; so the first that passes is one
that the call conforms to as things stood from the start. -/
theorem resolveFrom_sound (hp : ctx.program.Separate) (hlimit : ctx.sampleSize = none) (hw : w.BuiltIn cells)
    (hi : i.BuiltIn cells) {signatures : List Signature} {index : Nat} {tried : List Attempt} {s s' : Scene}
    {r : Resolution} (hs : s.world = w) (hrun : (ctx.resolveFrom i index tried signatures).run.run s = (.ok r, s')) :
    s'.world = w ∧ ∀ n, r.matched = some n →
      ∃ k sig B, n = index + k ∧ signatures[k]? = some sig ∧ r.bindings = some B ∧ ctx.Conforms w B sig i := by
  induction signatures generalizing index tried s with
  | nil =>
    cases hrun
    exact ⟨hs, fun n hn => nomatch hn⟩
  | cons sig rest ih =>
    obtain ⟨events, hstep⟩ := ctx.run_resolveFrom_cons i index tried sig s
    rw [hstep] at hrun
    rcases hcheck : (ctx.checkSignature i sig).run.run s with ⟨e | d, mid⟩
    · rw [hcheck] at hrun
      cases hrun
    obtain ⟨hworld, hconforms⟩ := checkSignature_sound hp hlimit hw hi hs hcheck
    rw [hcheck] at hrun
    cases d with
    | none =>
      obtain ⟨B, hB, hB'⟩ := hconforms rfl
      cases hrun
      exact ⟨hworld, fun n hn => ⟨0, sig, B, (Option.some.inj hn).symm, rfl, hB, hB'⟩⟩
    | some d =>
      obtain ⟨hworld', hmatched⟩ := ih (s := { mid with events }) hworld hrun
      refine ⟨hworld', fun n hn => ?_⟩
      obtain ⟨k, sig', B, hk, hsig, hB, hconforms'⟩ := hmatched n hn
      exact ⟨k + 1, sig', B, by omega, hsig, hB, hconforms'⟩

/-- Soundness of resolution.  Where all elements of a collection are looked at, a call with built-in values
conforms to the signature that it is found to match, under the bindings that are reported; and resolving it has
left the program as it was. -/
theorem resolve_conforms (hp : ctx.program.Separate) (hlimit : ctx.sampleSize = none) {i : Invocation}
    {signatures : List Signature} {scene scene' : Scene} {r : Resolution} {n : Nat}
    (hw : scene.world.BuiltIn cells) (hi : i.BuiltIn cells)
    (hrun : (ctx.resolve i signatures).run.run scene = (.ok r, scene')) (hmatched : r.matched = some n) :
    scene'.world = scene.world ∧ ∃ sig B, signatures[n]? = some sig ∧ r.bindings = some B ∧
      ctx.Conforms scene.world B sig i := by
  obtain ⟨hworld, hmatch⟩ := resolveFrom_sound hp hlimit hw hi rfl hrun
  obtain ⟨k, sig, B, hk, hsig, hB, hconforms⟩ := hmatch n hmatched
  rw [Nat.zero_add] at hk
  subst hk
  exact ⟨hworld, sig, B, hsig, hB, hconforms⟩

/-- A call that puts the elements of a list, which is in a cell, into a table by what a block gives for them. -/
def tableCall : Invocation where
  receiver := .null
  method := "table"
  args := [.cell 0]
  keywords := [("first", .int 0)]
  block := some (.builtin "repr")
  outcome := some (.ok (.mapping .dict [(.str "one", .int 1), (.str "none", .null)]))
  blockCalls := [⟨[.int 1], [], .ok (.str "one")⟩, ⟨[.null], [], .ok (.str "none")⟩]

/-- A signature that the call does not match, and one that it does. -/
def tableSignatures : List Signature :=
  [{ params := {}, result := .base .void },
    { params :=
        { required := [⟨.classRef "list" [.typeVar "T"], none⟩]
          requiredKeywords := [("first", ⟨.typeVar "T", none⟩)] }
      block := some { params := { required := [⟨.typeVar "T", none⟩] }, result := .typeVar "K" }
      result := .classRef "dict" [.typeVar "K", .typeVar "T"]
      typeParams := ["K", "T"] }]

/-- The call is made where the cell holds a list. -/
def tableScene : Scene where
  world := { cells := [.sequence .list [.int 1, .null]] }

theorem builtIn_tableScene : tableScene.world.BuiltIn (· = 0) := by
  rintro i rfl
  refine ⟨.sequence (by decide) fun x hx => .atom ?_, rfl⟩
  revert x
  decide

theorem builtIn_tableCall : tableCall.BuiltIn (· = 0) where
  args v hv := by
    rw [List.mem_singleton.1 hv]
    exact .cell rfl
  keywords kv hkv := by
    rw [List.mem_singleton.1 hkv]
    exact .atom rfl
  calls c hc := by
    have hatoms : (∀ v ∈ c.args, v.isAtom = true) ∧ c.keywords = [] ∧ ∀ v, c.outcome = .ok v → v.isAtom = true := by
      simp only [tableCall, List.mem_cons, List.not_mem_nil, or_false] at hc
      rcases hc with rfl | rfl <;> simp [Value.isAtom]
    refine ⟨fun v hv => .atom (hatoms.1 v hv), ?_, fun v hv => .atom (hatoms.2.2 v hv)⟩
    rw [hatoms.2.1]
    rintro kv ⟨⟩
  result v hv := by
    cases hv
    have hatoms : ∀ e ∈ [(Value.str "one", Value.int 1), (Value.str "none", Value.null)],
        e.1.isAtom = true ∧ e.2.isAtom = true := by decide
    exact .mapping (by decide) (fun e he => .atom (hatoms e he).1) fun e he => .atom (hatoms e he).2
  error r hr := nomatch hr

theorem matched_table :
    ((resolve { sampleSize := none } tableCall tableSignatures).run.run tableScene).1.toOption.bind (·.matched)
      = some 1 := by
  decide +kernel

theorem resolve_conforms_table :
    ∃ r scene', (resolve { sampleSize := none } tableCall tableSignatures).run.run tableScene = (.ok r, scene') ∧
      r.matched = some 1 ∧ scene'.world = tableScene.world ∧ ∃ sig B, tableSignatures[1]? = some sig ∧
        r.bindings = some B ∧ Conforms { sampleSize := none } tableScene.world B sig tableCall := by
  have hmatched := matched_table
  rcases hrun : (resolve { sampleSize := none } tableCall tableSignatures).run.run tableScene with ⟨e | r, scene'⟩
  · rw [hrun] at hmatched
    cases hmatched
  · rw [hrun] at hmatched
    exact ⟨r, scene', rfl, hmatched,
      resolve_conforms Program.separate_empty rfl builtIn_tableScene builtIn_tableCall hrun hmatched⟩

end Context

end Conformance
