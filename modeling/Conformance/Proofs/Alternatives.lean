import Mathlib
import Conformance.Proofs.Unbound

/-!
# Alternatives of a union

A value is judged against the alternatives of a union one after the other, each from the bindings at the beginning, and
the union stops at the first that accepts it.  Nothing of what a failed alternative has bound is left.  What it has
changed in the program is left, though: an iterator that it has used up is not full again for the next.  Where judging
leaves the program as it is, each alternative comes to what it comes to alone (`Judging.run_firstOf_alone`), and the union
ends as the first that accepts the value alone (`FirstAccepted`).

Main statement: `Context.union_first_accepted`.
-/

namespace Conformance

theorem Outcome.accepted_of_not_rejected {r : Outcome} (hreturns : ∃ verdict, r = .ok verdict) (h : ¬ r.Rejected) :
    r.Accepted := by
  obtain ⟨verdict, rfl⟩ := hreturns
  exact ⟨verdict, rfl, Context.isOk_of_not_rejected h⟩

theorem Reason.messages_eq_map (reasons : List Reason) : messages reasons = reasons.map message := by
  induction reasons with
  | nil => rfl
  | cons r rs ih => rw [messages, ih, List.map_cons]

theorem Reason.message_noAlternative (reasons : List Reason) :
    (noAlternative reasons).message =
      "no alternative matched (" ++ "; ".intercalate (reasons.map message) ++ ")" := by
  rw [← messages_eq_map]
  rfl

/-! ## Alternatives in turn -/

namespace Judging

variable {ms : List (Judging Verdict)} {rejected : List Mismatch → Mismatch} {failures : List Mismatch} {s s' : Scene}

/-- If all alternatives reject, the bindings at the end are those at the beginning. -/
theorem bindings_firstOf (h : Outcome.Rejected ((firstOf rejected failures ms).run.run s).1) :
    ((firstOf rejected failures ms).run.run s).2.bindings = s.bindings := by
  induction ms generalizing failures s with
  | nil => rfl
  | cons m ms ih =>
    rw [run_firstOf_cons] at h ⊢
    generalize m.run.run s = run at h ⊢
    obtain ⟨e | verdict, after⟩ := run
    · exact absurd h (Outcome.not_rejected_error e)
    · cases verdict with
      | no reason => exact ih h
      | yes | maybe => exact absurd h (Outcome.not_rejected_of_isOk rfl)

/-- Alternatives do not reject if one of them never does. -/
theorem not_rejected_firstOf {m : Judging Verdict} (hm : m ∈ ms) (h : ∀ s, ¬ Outcome.Rejected (m.run.run s).1) :
    ¬ Outcome.Rejected ((firstOf rejected failures ms).run.run s).1 := by
  induction ms generalizing failures s with
  | nil => cases hm
  | cons first ms ih =>
    rw [run_firstOf_cons]
    rcases hrun : first.run.run s with ⟨e | verdict, after⟩
    · exact Outcome.not_rejected_error e
    · cases verdict with
      | no reason =>
        rcases List.mem_cons.1 hm with rfl | hm
        · exact absurd ⟨reason, congrArg Prod.fst hrun⟩ (h s)
        · exact ih hm
      | yes | maybe => exact Outcome.not_rejected_of_isOk rfl

/-- Alternatives that leave the program as it is come to what the first of them comes to that accepts alone, or else are
rejected for the reasons of all. -/
theorem run_firstOf_alone {ι : Type} {xs : List ι} {f : ι → Judging Verdict} (hf : ∀ x ∈ xs, Oblivious Verdict (f x))
    (halone : ∀ x ∈ xs, (∃ verdict, ((f x).run.run s).1 = .ok verdict) ∧ ((f x).run.run s).2.world = s.world)
    (hs : s'.Same s) :
    (∃ before x after, xs = before ++ x :: after ∧ (∀ y ∈ before, Outcome.Rejected ((f y).run.run s).1) ∧
      Outcome.Accepted ((f x).run.run s).1 ∧
      SameRun ((firstOf rejected failures (xs.map f)).run.run s') ((f x).run.run s)) ∨
    ∃ reasons, (xs.map fun x => ((f x).run.run s).1) = reasons.map (fun m => .ok (.no m)) ∧
      ((firstOf rejected failures (xs.map f)).run.run s').1 = .ok (.no (rejected (failures ++ reasons))) := by
  induction xs generalizing failures s' with
  | nil => exact .inr ⟨[], rfl, by rw [List.append_nil]; rfl⟩
  | cons x xs ih =>
    have hsame := hf x List.mem_cons_self s' s hs
    obtain ⟨⟨verdict, hverdict⟩, hworld⟩ := halone x List.mem_cons_self
    rw [List.map_cons, run_firstOf_cons]
    generalize (f x).run.run s' = run at hsame ⊢
    obtain ⟨result, after⟩ := run
    obtain rfl : result = .ok verdict := hsame.result.trans hverdict
    cases verdict with
    | yes | maybe => exact .inl ⟨[], x, xs, rfl, by simp, ⟨_, hverdict, rfl⟩, hsame⟩
    | no reason =>
      -- the next one starts from the scene that this one started from, up to what has happened
      have hnext : ({ after with bindings := s'.bindings } : Scene).Same s :=
        ⟨hsame.scene.world.trans hworld, hs.bindings⟩
      obtain ⟨before, y, later, rfl, hbefore, hy, hrun⟩ | ⟨reasons, hreasons, hrun⟩ :=
        @ih (failures ++ [reason]) _ (fun y hy => hf y (List.mem_cons_of_mem x hy))
          (fun y hy => halone y (List.mem_cons_of_mem x hy)) hnext
      · exact .inl ⟨x :: before, y, later, rfl, List.forall_mem_cons.2 ⟨⟨reason, hverdict⟩, hbefore⟩, hy, hrun⟩
      · refine .inr ⟨reason :: reasons, ?_, ?_⟩
        · rw [List.map_cons, List.map_cons, hverdict, hreasons]
        · rw [List.append_assoc] at hrun
          exact hrun

end Judging

open Judging

/-- The run of a union at a path, as it follows from the runs of its alternatives alone. -/
inductive FirstAccepted (ts : List TypeExpr) (path : Path) (alone : TypeExpr → Outcome × Scene) (run : Outcome × Scene) :
    Prop where
  /-- The union ends as the first alternative that accepts, with all it has bound and no more. -/
  | accepted {before after : List TypeExpr} {t : TypeExpr} (split : ts = before ++ t :: after)
    (earlier : ∀ u ∈ before, (alone u).1.Rejected) (first : (alone t).1.Accepted) (same : SameRun run (alone t))
  /-- If none accepts, the reasons are those of the alternatives, in order. -/
  | rejected {m : Mismatch} {failures : List Mismatch} (result : run.1 = .ok (.no m))
    (each : (ts.map fun t => (alone t).1) = failures.map fun f => .ok (.no f))
    (reason : m.reason.message =
      "no alternative matched (" ++ "; ".intercalate (failures.map (·.reason.message)) ++ ")")
    (conflict : m.conflict = failures.findSome? (·.conflict)) (path : m.path = path) (expected : m.expected = .union ts)

theorem FirstAccepted.accepted_iff {ts : List TypeExpr} {path : Path} {alone : TypeExpr → Outcome × Scene}
    {run : Outcome × Scene} (h : FirstAccepted ts path alone run) :
    run.1.Accepted ↔ ∃ t ∈ ts, (alone t).1.Accepted := by
  cases h with
  | @accepted before after t split earlier first same =>
    rw [same.result, split]
    exact ⟨fun _ => ⟨t, by simp, first⟩, fun _ => first⟩
  | @rejected m failures result each =>
    rw [result]
    refine ⟨fun h => absurd h (Outcome.not_accepted_no m), fun ⟨t, ht, haccepted⟩ => ?_⟩
    have hmem := List.mem_map_of_mem (f := fun t => (alone t).1) ht
    rw [each] at hmem
    obtain ⟨f, -, hf⟩ := List.mem_map.1 hmem
    exact absurd (hf ▸ haccepted) (Outcome.not_accepted_no f)

namespace Context

/-! ## Doubles -/

theorem not_rejected_accepting {α : Type} (m : Judging α) (s : Scene) :
    ¬ Outcome.Rejected ((m >>= fun _ => pure .yes : Judging Verdict).run.run s).1 := by
  rw [run_bind]
  rcases m.run.run s with ⟨e | _, after⟩
  · exact Outcome.not_rejected_error e
  · exact Outcome.not_rejected_of_isOk rfl

/-- Whatever the type, a double is judged in the same way, and not rejected; other values are judged by the kind of the
type. -/
theorem run_judge_cases (ctx : Context) (v : Value) (s : Scene) :
    (∃ run : Outcome × Scene, ¬ run.1.Rejected ∧
      ∀ fuel t path, (ctx.judge (fuel + 1) v t path).run.run s = run) ∨
    ∀ fuel t path, (ctx.judge (fuel + 1) v t path).run.run s =
      (ctx.judgeWith (ctx.judge fuel) (s.world.resolve v) t path).run.run s := by
  have hrun (fuel : Nat) (t : TypeExpr) (path : Path) : (ctx.judge (fuel + 1) v t path).run.run s =
      (demand (ctx.isAmong (s.world.resolve v) ctx.doubles) >>= fun double => _ : Judging Verdict).run.run s := rfl
  simp only [run_bind, run_demand] at hrun
  cases hdouble : ctx.isAmong (s.world.resolve v) ctx.doubles with
  | error e =>
    refine .inl ⟨(.error e, s), Outcome.not_rejected_error e, fun fuel t path => ?_⟩
    rw [hrun, hdouble]
  | ok double =>
    cases double with
    | true => exact .inl ⟨_, not_rejected_accepting _ s, fun fuel t path => by rw [hrun, hdouble]; rfl⟩
    | false => exact .inr fun fuel t path => by rw [hrun, hdouble]; rfl

variable {ctx : Context} {fuel : Nat} {ts : List TypeExpr} {v : Value} {path : Path} {s : Scene}

/-- What is judged is the value as it stands now. -/
theorem run_judge_resolve (hcell : (s.world.resolve v).isCell = false) (t : TypeExpr) :
    (ctx.judge fuel (s.world.resolve v) t path).run.run s = (ctx.judge fuel v t path).run.run s := by
  cases fuel with
  | zero => rfl
  | succ fuel =>
    have hresolve (m : Value → Judging Verdict) (u : Value) :
        (Judging.resolve u >>= m).run.run s = (m (s.world.resolve u)).run.run s := rfl
    rw [judge]
    unfold judgeUnlessDouble
    rw [hresolve, hresolve, World.resolve_of_isCell hcell]

/-- What is not looked at is not rejected. -/
theorem not_rejected_top {t : TypeExpr} (ht : t = .untyped ∨ t = .base .top) :
    ¬ Outcome.Rejected ((ctx.judge fuel v t path).run.run s).1 := by
  cases fuel with
  | zero => exact Outcome.not_rejected_error _
  | succ fuel =>
    obtain ⟨run, haccepting, hrun⟩ | hrun := run_judge_cases ctx v s
    · rwa [hrun]
    · rw [hrun]
      rcases ht with rfl | rfl <;> exact Outcome.not_rejected_of_isOk rfl

/-- To judge a built-in value leaves the program as it is. -/
theorem world_judge {cells : Nat → Prop} (hp : ctx.program.Separate) (hw : s.world.BuiltIn cells)
    (hv : v.BuiltIn cells) (fuel : Nat) (t : TypeExpr) (path : Path) :
    ((ctx.judge fuel v t path).run.run s).2.world = s.world := by
  obtain ⟨slot, steps⟩ := path
  have hpaired := (comparison_covers hp hw slot slot (.inl rfl)).paired_judge hp hw.domain hw fuel t steps hv
  cases hb : s.bindings with
  | none => exact (hpaired.right s rfl hb).1
  | some b => exact (hpaired.left s rfl (by rw [hb]; rfl)).1

/-! ## Unions -/

/-- Alternatives that leave the program as it is decide each by itself. -/
theorem firstAccepted_judgeUnion (hcell : (s.world.resolve v).isCell = false)
    (halone : ∀ t ∈ ts, (∃ verdict, ((ctx.judge fuel v t path).run.run s).1 = .ok verdict) ∧
      ((ctx.judge fuel v t path).run.run s).2.world = s.world) :
    FirstAccepted ts path (fun t => (ctx.judge fuel v t path).run.run s)
      ((judgeUnion (ctx.judge fuel) ts (s.world.resolve v) path).run.run s) := by
  simp only [← run_judge_resolve hcell] at halone ⊢
  obtain ⟨before, t, after, hsplit, hbefore, ht, hrun⟩ | ⟨failures, hfailures, hrun⟩ :=
    run_firstOf_alone (fun t _ => oblivious_judge ctx fuel _ t path) halone ⟨rfl, rfl⟩
  · exact .accepted hsplit hbefore ht hrun
  · refine .rejected hrun hfailures ?_ rfl rfl rfl
    exact (Reason.message_noAlternative _).trans (by rw [List.map_map]; rfl)

/-- **First accepted alternative.**  If every alternative of a union can be judged alone and leaves the program as it is, a
value is accepted by the union if and only if one of them accepts it, and the union then ends as the first of these does,
started from the bindings at the beginning; if none accepts it, the rejection tells those of the alternatives.  In any
case a union that rejects leaves the bindings as they are, and one with an alternative that takes in everything does not
reject.  Judging built-in values leaves the program as it is. -/
theorem union_first_accepted (hts : ts ≠ []) (hcell : (s.world.resolve v).isCell = false) :
    ((∀ t ∈ ts, (∃ verdict, ((ctx.judge fuel v t path).run.run s).1 = .ok verdict) ∧
        ((ctx.judge fuel v t path).run.run s).2.world = s.world) →
      (Outcome.Accepted ((ctx.judge (fuel + 1) v (.union ts) path).run.run s).1 ↔
        ∃ t ∈ ts, Outcome.Accepted ((ctx.judge fuel v t path).run.run s).1) ∧
      FirstAccepted ts path (fun t => (ctx.judge fuel v t path).run.run s)
        ((ctx.judge (fuel + 1) v (.union ts) path).run.run s)) ∧
    (Outcome.Rejected ((ctx.judge (fuel + 1) v (.union ts) path).run.run s).1 →
      ((ctx.judge (fuel + 1) v (.union ts) path).run.run s).2.bindings = s.bindings) ∧
    (.untyped ∈ ts ∨ .base .top ∈ ts →
      ∀ verdict, ((ctx.judge (fuel + 1) v (.union ts) path).run.run s).1 = .ok verdict → verdict.isOk = true) ∧
    ∀ cells, ctx.program.Separate → s.world.BuiltIn cells → v.BuiltIn cells →
      ∀ t ∈ ts, ((ctx.judge fuel v t path).run.run s).2.world = s.world := by
  have hfirst (halone : ∀ t ∈ ts, (∃ verdict, ((ctx.judge fuel v t path).run.run s).1 = .ok verdict) ∧
      ((ctx.judge fuel v t path).run.run s).2.world = s.world) : FirstAccepted ts path
        (fun t => (ctx.judge fuel v t path).run.run s) ((ctx.judge (fuel + 1) v (.union ts) path).run.run s) := by
    obtain ⟨run, haccepting, hrun⟩ | hrun := run_judge_cases ctx v s
    · -- a double is judged by the first alternative as it is by the union
      obtain ⟨t, rest, rfl⟩ := List.exists_cons_of_ne_nil hts
      obtain ⟨hreturns, -⟩ := halone t List.mem_cons_self
      cases fuel with
      | zero =>
        obtain ⟨verdict, hverdict⟩ := hreturns
        cases hverdict
      | succ fuel =>
        simp only [hrun] at hreturns ⊢
        exact .accepted (List.nil_append (t :: rest)).symm (by simp)
          (Outcome.accepted_of_not_rejected hreturns haccepting) ⟨rfl, rfl, rfl⟩
    · rw [hrun]
      exact firstAccepted_judgeUnion hcell halone
  refine ⟨fun halone => ⟨(hfirst halone).accepted_iff, hfirst halone⟩, ?_, fun htop verdict hverdict => ?_,
    fun cells hp hw hv t _ => world_judge hp hw hv fuel t path⟩
  · obtain ⟨run, haccepting, hrun⟩ | hrun := run_judge_cases ctx v s
    · rw [hrun]
      exact fun h => absurd h haccepting
    · rw [hrun]
      exact bindings_firstOf
  · refine isOk_of_not_rejected (hverdict ▸ ?_)
    obtain ⟨run, haccepting, hrun⟩ | hrun := run_judge_cases ctx v s
    · rwa [hrun]
    · rw [hrun]
      obtain ⟨t, ht, hmem⟩ : ∃ t, (t = .untyped ∨ t = .base .top) ∧ t ∈ ts := by
        rcases htop with h | h
        · exact ⟨_, .inl rfl, h⟩
        · exact ⟨_, .inr rfl, h⟩
      exact not_rejected_firstOf (List.mem_map_of_mem hmem) fun s => not_rejected_top ht

/-- A value whose parts are bound before the first alternative fails. -/
def pair : Value := .sequence .tuple [.str "a", .int 1]

def pairTypes : List TypeExpr := [.tuple [.typeVar "T", .base .bool], .tuple [.typeVar "U", .typeVar "T"], .untyped]

/-- Another slot has bound a variable already. -/
def pairScene : Scene where
  bindings := some ⟨[("K", ⟨[.builtin "int"], "y"⟩)]⟩

/-- What comes of each alternative alone. -/
theorem pair_alternatives : ∀ t ∈ pairTypes,
    ((({} : Context).judge 2 pair t ⟨"x", []⟩).run.run pairScene).1.toOption.isSome = true := by
  decide +kernel

theorem pair_bindings :
    ((({} : Context).judge 3 pair (.union pairTypes) ⟨"x", []⟩).run.run pairScene).2.bindings =
      some ⟨[("K", ⟨[.builtin "int"], "y"⟩), ("U", ⟨[.builtin "str"], "x"⟩), ("T", ⟨[.builtin "int"], "x"⟩)]⟩ := by
  decide +kernel

/-- One alternative takes in everything, so the value is accepted.  That the first has bound `T` to another class before
it failed is not left in the bindings. -/
theorem union_first_accepted_pair :
    (∃ t ∈ pairTypes, Outcome.Accepted ((({} : Context).judge 2 pair t ⟨"x", []⟩).run.run pairScene).1) ∧
    Outcome.Accepted ((({} : Context).judge 3 pair (.union pairTypes) ⟨"x", []⟩).run.run pairScene).1 ∧
    ((({} : Context).judge 3 pair (.union pairTypes) ⟨"x", []⟩).run.run pairScene).2.bindings =
      some ⟨[("K", ⟨[.builtin "int"], "y"⟩), ("U", ⟨[.builtin "str"], "x"⟩), ("T", ⟨[.builtin "int"], "x"⟩)]⟩ := by
  have hts : pairTypes ≠ [] := List.cons_ne_nil _ _
  obtain ⟨hfirst, -, -, hquiet⟩ := @union_first_accepted {} 2 pairTypes pair ⟨"x", []⟩ pairScene hts rfl
  have hpair : pair.Finite {} 1 := .sequence (by decide) (by decide) (by simpa using ⟨.atom rfl rfl, .atom rfl rfl⟩) (by simp)
  have hreturns (t : TypeExpr) (ht : t ∈ pairTypes) :
      ∃ verdict, ((({} : Context).judge 2 pair t ⟨"x", []⟩).run.run pairScene).1 = .ok verdict := by
    have hsome := pair_alternatives t ht
    cases hrun : ((({} : Context).judge 2 pair t ⟨"x", []⟩).run.run pairScene).1 with
    | error e =>
      rw [hrun] at hsome
      cases hsome
    | ok verdict => exact ⟨verdict, rfl⟩
  obtain ⟨hiff, -⟩ := hfirst fun t ht =>
    ⟨hreturns t ht, hquiet _ Program.separate_empty (World.builtIn_finiteCells _) hpair.builtIn t ht⟩
  have hany : ∃ t ∈ pairTypes, Outcome.Accepted ((({} : Context).judge 2 pair t ⟨"x", []⟩).run.run pairScene).1 :=
    ⟨.untyped, by simp [pairTypes], Outcome.accepted_of_not_rejected (hreturns _ (by simp [pairTypes]))
      (not_rejected_top (.inl rfl))⟩
  exact ⟨hany, hiff.2 hany, pair_bindings⟩

/-- An object whose elements come from one iterator, which is used up. -/
def usedUp : Program where
  classes := [⟨.declared "Once", [.builtin "object"], [("__iter__", .method .ofInstance Formal.anything 0)]⟩]
  scripts := [[.answer (.shared "rest")]]

/-- There are a text and an integer left in the iterator. -/
def usedUpScene : Scene where
  world := { cells := [.iterator .listIterator [.str "a", .int 1]], shared := [("rest", .cell 0)] }

/-- The first alternative takes the text out of the iterator, so the second does not come across it, although it would
alone. -/
theorem union_spends_iterator :
    let judge := ({ program := usedUp } : Context).judge 3 (.object (.declared "Once") none [])
    let truths := TypeExpr.classRef "Iterable" [.base .bool]
    let integers := TypeExpr.classRef "Iterable" [.classRef "int" []]
    let accepts (t : TypeExpr) := ((judge t ⟨"value", []⟩).run.run usedUpScene).1.toOption.map (·.isOk)
    accepts (.union [truths, integers]) = some true ∧ accepts truths = some false ∧ accepts integers = some false := by
  decide +kernel

end Context

end Conformance
