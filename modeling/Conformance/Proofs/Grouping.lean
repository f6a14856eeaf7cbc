import Mathlib
import Conformance.Proofs.BuiltIn
import Conformance.Proofs.Succession

/-!
# Grouping

A union within a union, an intersection within an intersection and an optional within an optional can be spelled out in
place, and an optional is a union with `nil`.  Neither changes the verdict on a value or what is bound when it is accepted.
What it may change is how deep a judgement goes, so it can be too deep with the groups and not without them.

`Tracks` says of two judgements that they come to the same unless the first is too deep.  A judgement is tracked by the one
with more fuel, so a judgement with groups is tracked by the one without them, which in turn is tracked by the one with
them and one more level of fuel (`Equates`).

Main statement: `grouping_irrelevant`.  It covers groups anywhere in a type (`Regrouped`), so parentheses that are not
needed do not matter.
-/

namespace Conformance

namespace Judging

/-! ## Runs that agree -/

/-- The scenes differ at most in what is bound, and if they match exactly, not even in that. -/
structure Matches (exact : Prop) (s s' : Scene) : Prop where
  world : s.world = s'.world
  events : s.events = s'.events
  bindings : exact → s.bindings = s'.bindings

/-- The runs come to the same, whatever the value is rejected for.  What is bound may differ if it is not accepted, unless
they agree exactly. -/
inductive Agree (exact : Prop) : Outcome × Scene → Outcome × Scene → Prop
  | accepted {verdict : Verdict} {s : Scene} (h : verdict.isOk = true) : Agree exact (.ok verdict, s) (.ok verdict, s)
  | rejected {m m' : Mismatch} {s s' : Scene} (h : Matches exact s s') : Agree exact (.ok (.no m), s) (.ok (.no m'), s')
  | fault {e : Fault} {s s' : Scene} (h : Matches exact s s') : Agree exact (.error e, s) (.error e, s')

variable {exact : Prop}

theorem Matches.refl (s : Scene) : Matches exact s s := ⟨rfl, rfl, fun _ => rfl⟩

theorem Matches.symm {s s' : Scene} (h : Matches exact s s') : Matches exact s' s :=
  ⟨h.world.symm, h.events.symm, fun hexact => (h.bindings hexact).symm⟩

theorem Matches.trans {s s' s'' : Scene} (h : Matches exact s s') (h' : Matches exact s' s'') : Matches exact s s'' :=
  ⟨h.world.trans h'.world, h.events.trans h'.events, fun hexact => (h.bindings hexact).trans (h'.bindings hexact)⟩

/-- The scenes are the same once the bindings are. -/
theorem Matches.restored {s s' : Scene} (h : Matches exact s s') (b : Option Bindings) :
    { s with bindings := b } = { s' with bindings := b } := by
  rw [h.world, h.events]

namespace Agree

variable {run run' run'' : Outcome × Scene}

theorem refl (run : Outcome × Scene) : Agree exact run run := by
  obtain ⟨e | verdict, s⟩ := run
  · exact .fault (.refl s)
  · cases verdict with
    | no m => exact .rejected (.refl s)
    | yes | maybe => exact .accepted rfl

theorem symm (h : Agree exact run run') : Agree exact run' run := by
  cases h with
  | accepted h => exact .accepted h
  | rejected h => exact .rejected h.symm
  | fault h => exact .fault h.symm

theorem trans (h : Agree exact run run') (h' : Agree exact run' run'') : Agree exact run run'' := by
  cases h with
  | accepted h =>
    cases h' with
    | accepted _ => exact .accepted h
    | rejected _ => cases h
  | rejected h =>
    cases h' with
    | accepted hok => cases hok
    | rejected h' => exact .rejected (h.trans h')
  | fault h =>
    cases h' with
    | fault h' => exact .fault (h.trans h')

theorem tooDeep (h : Agree exact run run') (hdeep : run'.1 = .error .tooDeep) : run.1 = .error .tooDeep := by
  cases h with
  | accepted _ | rejected _ => cases hdeep
  | fault _ => exact hdeep

end Agree

/-! ## Judgements that track others -/

/-- Unless the first judgement is too deep, the second comes to the same. -/
def Tracks (exact : Prop) (m m' : Judging Verdict) : Prop :=
  ∀ s, (m.run.run s).1 = .error .tooDeep ∨ Agree exact (m.run.run s) (m'.run.run s)

theorem Tracks.refl (m : Judging Verdict) : Tracks exact m m := fun s => .inr (.refl (m.run.run s))

theorem Tracks.trans {m m' m'' : Judging Verdict} (h : Tracks exact m m') (h' : Tracks exact m' m'') :
    Tracks exact m m'' := by
  intro s
  rcases h s with hdeep | hagree
  · exact .inl hdeep
  · exact (h' s).imp hagree.tooDeep hagree.trans

/-- To track pervades judgements that are made alike. -/
theorem lockstep_tracks (exact : Prop) : Lockstep (fun _ => True) (fun _ _ => True) (Tracks exact) where
  inspection _ _ := trivial
  pure _ := trivial
  bind _ _ := trivial
  world _ := trivial
  demand _ := trivial
  running _ := trivial
  happen _ := trivial
  settled verdict := .refl (Pure.pure verdict)
  rejected m m' s := .inr (.rejected (.refl s))
  inspect {α m f f'} _ h s := by
    rw [run_bind, run_bind]
    rcases m.run.run s with ⟨e | a, mid⟩
    · exact .inr (.refl _)
    · exact h a mid
  inWorld h s := h s.world s
  andThen {m m' n n'} hm hn s := by
    have hfirst := hm s
    rw [run_andThen, run_andThen]
    generalize m.run.run s = run, m'.run.run s = run' at hfirst
    rcases hfirst with hdeep | hagree
    · obtain ⟨result, after⟩ := run
      obtain rfl : result = .error .tooDeep := hdeep
      exact .inl rfl
    · cases hagree with
      | accepted hok =>
        simp only [hok]
        exact hn _
      | rejected h => exact .inr (.rejected h)
      | fault h => exact .inr (.fault h)
  attempt {m m' ms ms' reject reject'} hm hrest failures failures' s := by
    have hfirst := hm s
    rw [run_firstOf_cons, run_firstOf_cons]
    generalize m.run.run s = run, m'.run.run s = run' at hfirst
    rcases hfirst with hdeep | hagree
    · obtain ⟨result, after⟩ := run
      obtain rfl : result = .error .tooDeep := hdeep
      exact .inl rfl
    · cases hagree with
      | @accepted verdict _ hok =>
        cases verdict with
        | no => cases hok
        | yes | maybe => exact .inr (.refl _)
      | rejected h =>
        dsimp only
        rw [h.restored]
        exact hrest _ _ _
      | fault h =>
        dsimp only
        rw [h.restored]
        exact .inr (.refl _)

/-! ## Groups of alternatives and demands -/

section Groups

variable {reject reject' reject'' : List Mismatch → Mismatch}

theorem agree_firstOf (ms : List (Judging Verdict)) (failures failures' : List Mismatch) (s : Scene) :
    Agree exact ((firstOf reject failures ms).run.run s) ((firstOf reject' failures' ms).run.run s) := by
  induction ms generalizing failures failures' s with
  | nil => exact .rejected (.refl s)
  | cons m ms ih =>
    rw [run_firstOf_cons, run_firstOf_cons]
    rcases m.run.run s with ⟨e | verdict, mid⟩
    · exact .refl _
    · cases verdict with
      | no reason => exact ih _ _ _
      | yes | maybe => exact .refl _

/-- Alternatives that are tried as a group may as well be tried one by one. -/
theorem agree_firstOf_group (before group after : List (Judging Verdict)) (failures failures' failures'' : List Mismatch)
    (s : Scene) :
    Agree exact ((firstOf reject failures (before ++ firstOf reject' failures' group :: after)).run.run s)
      ((firstOf reject'' failures'' (before ++ (group ++ after))).run.run s) := by
  induction before generalizing failures failures'' s with
  | nil =>
    rw [List.nil_append, List.nil_append]
    induction group generalizing failures' failures'' s with
    | nil => exact agree_firstOf after _ failures'' s
    | cons m group ih =>
      rw [run_firstOf_cons, run_firstOf_cons, List.cons_append, run_firstOf_cons]
      rcases m.run.run s with ⟨e | verdict, mid⟩
      · exact .refl _
      · cases verdict with
        | no reason =>
          -- the rest of the group begins from the bindings that the whole group began from
          have hrest := ih (failures' ++ [reason]) (failures'' ++ [reason]) { mid with bindings := s.bindings }
          rwa [run_firstOf_cons] at hrest
        | yes | maybe => exact .refl _
  | cons m before ih =>
    rw [List.cons_append, List.cons_append, run_firstOf_cons, run_firstOf_cons]
    rcases m.run.run s with ⟨e | verdict, mid⟩
    · exact .refl _
    · cases verdict with
      | no reason => exact ih _ _ _
      | yes | maybe => exact .refl _

theorem andThen_assoc (m n k : Judging Verdict) : (m.andThen n).andThen k = m.andThen (n.andThen k) := by
  refine funext fun s => ?_
  change ((m.andThen n).andThen k).run.run s = (m.andThen (n.andThen k)).run.run s
  rw [run_andThen, run_andThen, run_andThen]
  rcases m.run.run s with ⟨e | verdict, mid⟩
  · rfl
  · cases hok : verdict.isOk with
    | true => simp only [hok, if_true, run_andThen]
    | false => simp [hok]

theorem allOf_append (ms ns : List (Judging Verdict)) : allOf (ms ++ ns) = (allOf ms).andThen (allOf ns) := by
  induction ms with
  | nil => rfl
  | cons m ms ih => rw [List.cons_append, allOf, ih, allOf, andThen_assoc]

/-- Demands that are made as a group may as well be made one by one. -/
theorem allOf_group (before group after : List (Judging Verdict)) :
    allOf (before ++ allOf group :: after) = allOf (before ++ (group ++ after)) := by
  rw [allOf_append, allOf, allOf_append, allOf_append]

end Groups

end Judging

namespace Context

open Judging

variable {ctx : Context} {exact : Prop}

/-! ## Depth -/

/-- A judgement tracks one that is made alike, if it does so on the parts of the types. -/
theorem tracks_of_alike {T : TypeExpr → TypeExpr → Prop} {judge judge' : Judge} {t t' : TypeExpr}
    (h : t.Alike ctx.registry T t') (hparts : ∀ u u', T u u' → ∀ v path, Tracks exact (judge v u path) (judge' v u' path))
    (v : Value) (path : Path) : Tracks exact (ctx.judgeWith judge v t path) (ctx.judgeWith judge' v t' path) := by
  have hadm : Admits (fun _ => True) (fun m => Tracks exact m m) ctx path.slot t :=
    admits_of_typeVar fun _ _ _ _ => .refl _
  exact (lockstep_tracks exact).judgeWith path (fun u u' hu w steps => hparts u u' hu w ⟨path.slot, steps⟩) hadm h v

/-- With more fuel a judgement comes to the same, unless it is too deep with less. -/
theorem tracks_judge_succ (ctx : Context) (fuel : Nat) (v : Value) (t : TypeExpr) (path : Path) :
    Tracks exact (ctx.judge fuel v t path) (ctx.judge (fuel + 1) v t path) := by
  induction fuel generalizing v t path with
  | zero => exact fun s => .inl rfl
  | succ fuel ih =>
    refine (lockstep_tracks exact).judgeUnlessDouble (fun u _ => ?_) v
    refine tracks_of_alike (t.alike_of_parts ctx.registry) (fun x x' hx w p => ?_) u path
    obtain ⟨rfl, -⟩ := hx
    exact ih w x' p

theorem tracks_judge_add (ctx : Context) (fuel n : Nat) (v : Value) (t : TypeExpr) (path : Path) :
    Tracks exact (ctx.judge fuel v t path) (ctx.judge (fuel + n) v t path) := by
  induction n with
  | zero => exact .refl _
  | succ n ih => exact ih.trans (ctx.tracks_judge_succ (fuel + n) v t path)

/-- A value that is neither in a cell nor a double is judged by the kind of the type at once. -/
theorem Plain.judge_succ {v : Value} (hv : ctx.Plain v) (fuel : Nat) (t : TypeExpr) (path : Path) :
    ctx.judge (fuel + 1) v t path = ctx.judgeWith (ctx.judge fuel) v t path := by
  refine funext fun s => ?_
  change (ctx.judgeUnlessDouble (ctx.judge fuel) v t path).run.run s = (ctx.judgeWith (ctx.judge fuel) v t path).run.run s
  have hresolve : (Judging.resolve v).run.run s = (.ok v, s) := by
    change (Except.ok (s.world.resolve v), s) = _
    rw [World.resolve_of_isCell hv.isCell]
  unfold judgeUnlessDouble
  rw [run_bind, hresolve]
  dsimp only
  rw [run_bind, run_demand, hv.isDouble]
  rfl

theorem Plain.tracks_judge {v : Value} (hv : ctx.Plain v) (fuel : Nat) (t : TypeExpr) (path : Path) :
    Tracks exact (ctx.judge fuel v t path) (ctx.judgeWith (ctx.judge fuel) v t path) := by
  rw [← hv.judge_succ]
  exact ctx.tracks_judge_succ fuel v t path

/-! ## Types of the same meaning -/

/-- Judging against either type comes to the same.  The first may take one level more. -/
def Equates (ctx : Context) (exact : Prop) (t t' : TypeExpr) : Prop :=
  ∀ fuel v path, Tracks exact (ctx.judge fuel v t path) (ctx.judge fuel v t' path) ∧
    Tracks exact (ctx.judge fuel v t' path) (ctx.judge (fuel + 1) v t path)

/-- It is enough to compare the two where the kinds of the types are looked at. -/
theorem equates_of_plain {t t' : TypeExpr}
    (h : ∀ u, ctx.Plain u → ∀ fuel path,
      Tracks exact (ctx.judgeWith (ctx.judge fuel) u t path) (ctx.judgeWith (ctx.judge fuel) u t' path) ∧
        Tracks exact (ctx.judgeWith (ctx.judge fuel) u t' path) (ctx.judgeWith (ctx.judge (fuel + 1)) u t path)) :
    ctx.Equates exact t t' := by
  intro fuel v path
  cases fuel with
  | zero => exact ⟨fun s => .inl rfl, fun s => .inl rfl⟩
  | succ fuel =>
    exact ⟨(lockstep_tracks exact).judgeUnlessDouble (fun u hu => (h u hu fuel path).1) v,
      (lockstep_tracks exact).judgeUnlessDouble (fun u hu => (h u hu fuel path).2) v⟩

/-- How a value is judged against each of some types. -/
abbrev attempts (judge : Judge) (v : Value) (path : Path) (ts : List TypeExpr) : List (Judging Verdict) :=
  ts.map fun t => judge v t path

theorem forall₂_attempts (ctx : Context) (fuel : Nat) (v : Value) (path : Path) (ts : List TypeExpr) :
    List.Forall₂ (Tracks exact) (attempts (ctx.judge fuel) v path ts) (attempts (ctx.judge (fuel + 1)) v path ts) := by
  rw [List.forall₂_map_left_iff, List.forall₂_map_right_iff]
  exact List.forall₂_same.2 fun t _ => ctx.tracks_judge_succ fuel v t path

/-- A group in a node can be spelled out in place, if what the node makes of groups allows it. -/
theorem equates_group {node : List TypeExpr → TypeExpr}
    {gather : Value → Path → List TypeExpr → List (Judging Verdict) → Judging Verdict}
    (hnode : ∀ judge u ts path, ctx.judgeWith judge u (node ts) path = gather u path ts (attempts judge u path ts))
    (hcongr : ∀ u path ts ms ms', List.Forall₂ (Tracks exact) ms ms' →
      Tracks exact (gather u path ts ms) (gather u path ts ms'))
    (hgroup : ∀ u path ts ys ts' before group after s,
      Agree exact ((gather u path ts (before ++ gather u path ys group :: after)).run.run s)
        ((gather u path ts' (before ++ (group ++ after))).run.run s)) (xs ys zs : List TypeExpr) :
    ctx.Equates exact (node (xs ++ [node ys] ++ zs)) (node (xs ++ ys ++ zs)) := by
  refine equates_of_plain fun u hu fuel path => ?_
  have hdeep (k : Nat) : attempts (ctx.judge k) u path (xs ++ [node ys] ++ zs) =
      attempts (ctx.judge k) u path xs ++ ctx.judge k u (node ys) path :: attempts (ctx.judge k) u path zs := by
    simp [attempts]
  have hflat : attempts (ctx.judge fuel) u path (xs ++ ys ++ zs) = attempts (ctx.judge fuel) u path xs ++
      (attempts (ctx.judge fuel) u path ys ++ attempts (ctx.judge fuel) u path zs) := by
    simp [attempts]
  have hsame (ms : List (Judging Verdict)) : List.Forall₂ (Tracks exact) ms ms := List.forall₂_same.2 fun m _ => .refl m
  rw [hnode, hnode, hnode, hdeep, hdeep, hflat]
  constructor
  · have hinner : Tracks exact (ctx.judge fuel u (node ys) path) _ := hu.tracks_judge fuel (node ys) path
    rw [hnode] at hinner
    exact (hcongr u path _ _ _ (List.rel_append (hsame _) (.cons hinner (hsame _)))).trans fun s =>
      .inr (hgroup u path _ ys _ _ _ _ s)
  · rw [hu.judge_succ, hnode]
    refine Tracks.trans (fun s => .inr (hgroup u path _ ys _ _ _ _ s).symm) (hcongr u path _ _ _ ?_)
    exact List.rel_append (ctx.forall₂_attempts fuel u path xs) (.cons (.refl _) (ctx.forall₂_attempts fuel u path zs))

/-- What a union rejects a value with. -/
def unionRejection (v : Value) (path : Path) (ts : List TypeExpr) (failures : List Mismatch) : Mismatch :=
  { mismatch v (.union ts) path (.noAlternative (failures.map (·.reason))) with
    conflict := failures.findSome? (·.conflict) }

theorem judgeWith_union (judge : Judge) (v : Value) (ts : List TypeExpr) (path : Path) :
    ctx.judgeWith judge v (.union ts) path = firstOf (unionRejection v path ts) [] (attempts judge v path ts) := rfl

theorem equates_union (ctx : Context) (xs ys zs : List TypeExpr) :
    ctx.Equates exact (.union (xs ++ [.union ys] ++ zs)) (.union (xs ++ ys ++ zs)) :=
  equates_group judgeWith_union (fun _ _ _ _ _ h => (lockstep_tracks exact).firstOf h [] [])
    (fun _ _ _ _ _ before group after s => agree_firstOf_group before group after [] [] [] s) xs ys zs

theorem judgeWith_intersection (judge : Judge) (v : Value) (ts : List TypeExpr) (path : Path) :
    ctx.judgeWith judge v (.intersection ts) path = allOf (attempts judge v path ts) := rfl

theorem equates_intersection (ctx : Context) (xs ys zs : List TypeExpr) :
    ctx.Equates exact (.intersection (xs ++ [.intersection ys] ++ zs)) (.intersection (xs ++ ys ++ zs)) := by
  refine equates_group judgeWith_intersection (fun _ _ _ _ _ h => (lockstep_tracks exact).allOf h)
    (fun _ _ _ _ _ before group after s => ?_) xs ys zs
  rw [allOf_group]
  exact .refl _

theorem equates_optional (ctx : Context) (t : TypeExpr) :
    ctx.Equates exact (.optional (.optional t)) (.optional t) := by
  refine equates_of_plain fun u hu fuel path => ⟨?_, ?_⟩
  · refine Lockstep.ite (fun _ => .refl _) fun hnull => ?_
    have hinner : Tracks exact (ctx.judge fuel u (.optional t) path) _ := hu.tracks_judge fuel (.optional t) path
    rwa [judgeWith, if_neg hnull] at hinner
  · refine Lockstep.ite (fun _ => .refl _) fun hnull => ?_
    rw [hu.judge_succ, judgeWith, if_neg hnull]
    exact .refl _

/-- To try `nil` first is to look whether the value is that. -/
theorem agree_firstOf_nil (reject : List Mismatch → Mismatch) (m : Mismatch) (isNil : Bool) (inner : Judging Verdict)
    (s : Scene) :
    Agree False ((firstOf reject [] [decide isNil m, inner]).run.run s)
      ((if isNil then return .yes else inner : Judging Verdict).run.run s) := by
  cases isNil with
  | true => exact .refl _
  | false =>
    change Agree False ((firstOf reject [m] [inner]).run.run s) (inner.run.run s)
    rw [run_firstOf_cons]
    rcases inner.run.run s with ⟨e | verdict, after⟩
    · exact .fault ⟨rfl, rfl, False.elim⟩
    · cases verdict with
      | no reason => exact .rejected ⟨rfl, rfl, False.elim⟩
      | yes | maybe => exact .refl _

theorem equates_nil (ctx : Context) (t : TypeExpr) : ctx.Equates False (.union [.base .nil, t]) (.optional t) := by
  refine equates_of_plain fun u hu fuel path => ?_
  rw [judgeWith_union, judgeWith_union]
  generalize unionRejection u path [.base .nil, t] = reject
  constructor
  · have hnil : Tracks False (ctx.judge fuel u (.base .nil) path) _ := hu.tracks_judge fuel (.base .nil) path
    have htried : Tracks False (firstOf reject [] (attempts (ctx.judge fuel) u path [.base .nil, t]))
        (firstOf reject [] [_, ctx.judge fuel u t path]) :=
      (lockstep_tracks False).firstOf (.cons hnil (.cons (.refl _) .nil)) [] []
    exact htried.trans fun s => .inr (agree_firstOf_nil reject _ u.isNull _ s)
  · have hnil : attempts (ctx.judge (fuel + 1)) u path [.base .nil, t] =
        [decide u.isNull (mismatch u (.base .nil) path .notNil), ctx.judge (fuel + 1) u t path] := by
      rw [attempts, List.map_cons, hu.judge_succ]
      rfl
    have hinner : Tracks False (ctx.judge fuel u t path) _ := ctx.tracks_judge_succ fuel u t path
    rw [hnil]
    exact Tracks.trans (fun s => .inr (agree_firstOf_nil reject _ u.isNull _ s).symm)
      ((lockstep_tracks False).firstOf (.cons (.refl _) (.cons hinner .nil)) [] [])

/-! ## Groups anywhere -/

/-- The second type takes the place of the first, if there is that much more fuel. -/
def Follows (ctx : Context) (n : Nat) (t t' : TypeExpr) : Prop :=
  ∀ fuel v path, Tracks False (ctx.judge fuel v t path) (ctx.judge (fuel + n) v t' path)

theorem Follows.refl (n : Nat) (t : TypeExpr) : ctx.Follows n t t := fun fuel v path => ctx.tracks_judge_add fuel n v t path

theorem Follows.trans {n k : Nat} {t t' t'' : TypeExpr} (h : ctx.Follows n t t') (h' : ctx.Follows k t' t'') :
    ctx.Follows (n + k) t t'' := by
  intro fuel v path
  rw [← Nat.add_assoc]
  exact (h fuel v path).trans (h' (fuel + n) v path)

theorem Equates.follows {t t' : TypeExpr} (h : ctx.Equates False t t') : ctx.Follows 1 t t' ∧ ctx.Follows 1 t' t :=
  ⟨fun fuel v path => (h fuel v path).1.trans (ctx.tracks_judge_succ fuel v t' path), fun fuel v path => (h fuel v path).2⟩

theorem Follows.of_alike {n : Nat} {t t' : TypeExpr} (h : t.Alike ctx.registry (ctx.Follows n) t') :
    ctx.Follows n t t' := by
  intro fuel v path
  cases fuel with
  | zero => exact fun s => .inl rfl
  | succ fuel =>
    rw [Nat.add_right_comm]
    exact (lockstep_tracks False).judgeUnlessDouble (fun u _ => tracks_of_alike h (fun _ _ hu => hu fuel) u path) v

theorem Follows.inList {n : Nat} {t t' : TypeExpr} (h : ctx.Follows n t t') (xs ys : List TypeExpr) :
    List.Forall₂ (ctx.Follows n) (xs ++ t :: ys) (xs ++ t' :: ys) :=
  List.rel_append (List.forall₂_same.2 fun x _ => .refl n x) (.cons h (List.forall₂_same.2 fun y _ => .refl n y))

theorem Follows.inArgument {n : Nat} {t t' : TypeExpr} (h : ctx.Follows n t t') (name : String) (xs ys : List TypeExpr) :
    ctx.Follows n (.classRef name (xs ++ t :: ys)) (.classRef name (xs ++ t' :: ys)) := by
  cases halias : ctx.registry.isAlias name with
  | true => exact .of_alike (.expansion halias fun u _ => .refl n u)
  | false => exact .of_alike (.classRef halias (h.inList xs ys))

end Context

/-- The parameter lists ask for as many positional arguments and for the same keywords. -/
structure Params.AskAlike (p p' : Params TypeExpr) : Prop where
  positionals : p.minPositionals = p'.minPositionals
  keywords : p.requiredKeywords.map (·.1) = p'.requiredKeywords.map (·.1)

theorem Params.AskAlike.fitAlike {p p' : Params TypeExpr} (h : p.AskAlike p') : p.FitAlike p' := by
  intro formals
  unfold Program.fits
  rw [h.positionals, h.keywords]

theorem Params.AskAlike.symm {p p' : Params TypeExpr} (h : p.AskAlike p') : p'.AskAlike p :=
  ⟨h.positionals.symm, h.keywords.symm⟩

theorem Capability.Alike.fitAlike {c c' : Capability TypeExpr} (h : c.Alike Params.AskAlike c') :
    c.Alike Params.FitAlike c' ∧ c'.Alike Params.FitAlike c := by
  obtain ⟨name, params, explicit⟩ := c
  obtain ⟨_, params', _⟩ := c'
  obtain ⟨rfl, rfl, hparams⟩ := h
  dsimp only at hparams
  cases hparams with
  | none => exact ⟨.refl _, .refl _⟩
  | some hp => exact ⟨⟨rfl, rfl, .some hp.fitAlike⟩, rfl, rfl, .some hp.symm.fitAlike⟩

/-- The types differ in how alternatives, demands and optionals are grouped, anywhere in them.  Of a proc type and of the
methods of an interface, all that is asked of a value are the arguments that it has to take. -/
inductive TypeExpr.Regrouped : TypeExpr → TypeExpr → Prop
  | union (xs ys zs : List TypeExpr) : Regrouped (.union (xs ++ [.union ys] ++ zs)) (.union (xs ++ ys ++ zs))
  | intersection (xs ys zs : List TypeExpr) :
      Regrouped (.intersection (xs ++ [.intersection ys] ++ zs)) (.intersection (xs ++ ys ++ zs))
  | nil (t : TypeExpr) : Regrouped (.union [.base .nil, t]) (.optional t)
  | optional (t : TypeExpr) : Regrouped (.optional (.optional t)) (.optional t)
  | refl (t : TypeExpr) : Regrouped t t
  | symm {t t' : TypeExpr} (h : Regrouped t t') : Regrouped t' t
  | trans {t t' t'' : TypeExpr} (h : Regrouped t t') (h' : Regrouped t' t'') : Regrouped t t''
  | inArgument {t t' : TypeExpr} (name : String) (xs ys : List TypeExpr) (h : Regrouped t t') :
      Regrouped (.classRef name (xs ++ t :: ys)) (.classRef name (xs ++ t' :: ys))
  | inUnion {t t' : TypeExpr} (xs ys : List TypeExpr) (h : Regrouped t t') :
      Regrouped (.union (xs ++ t :: ys)) (.union (xs ++ t' :: ys))
  | inIntersection {t t' : TypeExpr} (xs ys : List TypeExpr) (h : Regrouped t t') :
      Regrouped (.intersection (xs ++ t :: ys)) (.intersection (xs ++ t' :: ys))
  | inTuple {t t' : TypeExpr} (xs ys : List TypeExpr) (h : Regrouped t t') :
      Regrouped (.tuple (xs ++ t :: ys)) (.tuple (xs ++ t' :: ys))
  | inField {t t' : TypeExpr} (xs : List (Field TypeExpr)) (key : Key) (required : Bool) (ys : List (Field TypeExpr))
      (extra : Option TypeExpr) (h : Regrouped t t') :
      Regrouped (.record (xs ++ ⟨key, t, required⟩ :: ys) extra) (.record (xs ++ ⟨key, t', required⟩ :: ys) extra)
  | inExtra {t t' : TypeExpr} (fields : List (Field TypeExpr)) (h : Regrouped t t') :
      Regrouped (.record fields (some t)) (.record fields (some t'))
  | inOptional {t t' : TypeExpr} (h : Regrouped t t') : Regrouped (.optional t) (.optional t')
  | inInterface (name : String) {methods methods' : List (Capability TypeExpr)}
      (h : List.Forall₂ (Capability.Alike Params.AskAlike) methods methods') :
      Regrouped (.interface name methods) (.interface name methods')
  | inProc {params params' : Params TypeExpr} (result result' : TypeExpr) (block block' : Option (Block TypeExpr))
      (h : params.AskAlike params') : Regrouped (.proc params result block) (.proc params' result' block')

/-- Types that differ in grouping take each other's place, if there is some more fuel. -/
theorem TypeExpr.Regrouped.follows {t t' : TypeExpr} (h : t.Regrouped t') (ctx : Context) :
    ∃ n, ctx.Follows n t t' ∧ ctx.Follows n t' t := by
  have hfields (n : Nat) (fs : List (Field TypeExpr)) : List.Forall₂ (Field.Alike (ctx.Follows n)) fs fs :=
    List.forall₂_same.2 fun f _ => ⟨rfl, rfl, .refl n f.type⟩
  induction h with
  | union xs ys zs => exact ⟨1, (ctx.equates_union xs ys zs).follows⟩
  | intersection xs ys zs => exact ⟨1, (ctx.equates_intersection xs ys zs).follows⟩
  | nil t => exact ⟨1, (ctx.equates_nil t).follows⟩
  | optional t => exact ⟨1, (ctx.equates_optional t).follows⟩
  | refl t => exact ⟨0, .refl 0 t, .refl 0 t⟩
  | symm _ ih =>
    obtain ⟨n, hto, hfrom⟩ := ih
    exact ⟨n, hfrom, hto⟩
  | trans _ _ ih ih' =>
    obtain ⟨n, hto, hfrom⟩ := ih
    obtain ⟨k, hto', hfrom'⟩ := ih'
    exact ⟨n + k, hto.trans hto', Nat.add_comm k n ▸ hfrom'.trans hfrom⟩
  | inArgument name xs ys _ ih =>
    obtain ⟨n, hto, hfrom⟩ := ih
    exact ⟨n, hto.inArgument name xs ys, hfrom.inArgument name xs ys⟩
  | inUnion xs ys _ ih =>
    obtain ⟨n, hto, hfrom⟩ := ih
    exact ⟨n, .of_alike (.union (hto.inList xs ys)), .of_alike (.union (hfrom.inList xs ys))⟩
  | inIntersection xs ys _ ih =>
    obtain ⟨n, hto, hfrom⟩ := ih
    exact ⟨n, .of_alike (.intersection (hto.inList xs ys)), .of_alike (.intersection (hfrom.inList xs ys))⟩
  | inTuple xs ys _ ih =>
    obtain ⟨n, hto, hfrom⟩ := ih
    exact ⟨n, .of_alike (.tuple (hto.inList xs ys)), .of_alike (.tuple (hfrom.inList xs ys))⟩
  | inField xs key required ys extra _ ih =>
    obtain ⟨n, hto, hfrom⟩ := ih
    have hextra : Option.Rel (ctx.Follows n) extra extra := by
      cases extra with
      | none => exact .none
      | some u => exact .some (.refl n u)
    exact ⟨n, .of_alike (.record (List.rel_append (hfields n xs) (.cons ⟨rfl, rfl, hto⟩ (hfields n ys))) hextra),
      .of_alike (.record (List.rel_append (hfields n xs) (.cons ⟨rfl, rfl, hfrom⟩ (hfields n ys))) hextra)⟩
  | inExtra fields _ ih =>
    obtain ⟨n, hto, hfrom⟩ := ih
    exact ⟨n, .of_alike (.record (hfields n fields) (.some hto)), .of_alike (.record (hfields n fields) (.some hfrom))⟩
  | inOptional _ ih =>
    obtain ⟨n, hto, hfrom⟩ := ih
    exact ⟨n, .of_alike (.optional hto), .of_alike (.optional hfrom)⟩
  | inInterface name h =>
    have hback := List.Forall₂.flip (h.imp fun _ _ hc => hc.fitAlike.2)
    exact ⟨0, .of_alike (.interface name (h.imp fun _ _ hc => hc.fitAlike.1)), .of_alike (.interface name hback)⟩
  | inProc _ _ _ _ h => exact ⟨0, .of_alike (.proc h.fitAlike), .of_alike (.proc h.symm.fitAlike)⟩

namespace Context

open Judging

/-- How a type is grouped does not matter, in whatever scene and at whatever path a value is judged.  A group within a
group of its kind can be spelled out in place, and so can an optional within an optional; an optional is a union with
`nil`, but for what is left bound when the value is not accepted.  So whatever is regrouped in a type, the value in a slot
is accepted or not as it was before, and with the same bindings, unless one of the judgements is too deep. -/
theorem grouping_irrelevant (ctx : Context) :
    (∀ xs ys zs, ctx.Equates True (.union (xs ++ [.union ys] ++ zs)) (.union (xs ++ ys ++ zs))) ∧
    (∀ xs ys zs, ctx.Equates True (.intersection (xs ++ [.intersection ys] ++ zs)) (.intersection (xs ++ ys ++ zs))) ∧
    (∀ t, ctx.Equates False (.union [.base .nil, t]) (.optional t)) ∧
    (∀ t, ctx.Equates True (.optional (.optional t)) (.optional t)) ∧
    ∀ t t' : TypeExpr, t.Regrouped t' → ∀ v slot s,
      ((ctx.satisfies v t slot).run.run s).1 = .error .tooDeep ∨ ((ctx.satisfies v t' slot).run.run s).1 = .error .tooDeep ∨
        Agree False ((ctx.satisfies v t slot).run.run s) ((ctx.satisfies v t' slot).run.run s) := by
  refine ⟨ctx.equates_union, ctx.equates_intersection, ctx.equates_nil, ctx.equates_optional, fun t t' h v slot s => ?_⟩
  obtain ⟨n, hto, -⟩ := h.follows ctx
  -- both are compared with the judgement against the second type that has fuel enough for either
  rcases hto ctx.program.depthLimit v ⟨slot, []⟩ s with hdeep | hagree
  · exact .inl hdeep
  · rcases ctx.tracks_judge_add ctx.program.depthLimit n v t' ⟨slot, []⟩ s with hdeep | hsame
    · exact .inr (.inl hdeep)
    · exact .inr (.inr (hagree.trans hsame.symm))

/-- `nil` and an alternative in parentheses are the same as an optional, in the middle of another type. -/
theorem grouping_irrelevant_parentheses :
    TypeExpr.Regrouped (.optional (.union [.base .bool, .union [.base .nil, .typeVar "a"]]))
      (.optional (.union [.base .bool, .base .nil, .typeVar "a"])) ∧
    Agree False
      ((({} : Context).satisfies (.int 1) (.optional (.union [.base .bool, .union [.base .nil, .typeVar "a"]])) "x").run.run
        { bindings := some .empty })
      ((({} : Context).satisfies (.int 1) (.optional (.union [.base .bool, .base .nil, .typeVar "a"])) "x").run.run
        { bindings := some .empty }) := by
  have hregrouped : TypeExpr.Regrouped (.optional (.union [.base .bool, .union [.base .nil, .typeVar "a"]]))
      (.optional (.union [.base .bool, .base .nil, .typeVar "a"])) :=
    .inOptional (.union [.base .bool] [.base .nil, .typeVar "a"] [])
  refine ⟨hregrouped, ?_⟩
  obtain ⟨-, -, -, -, hall⟩ := grouping_irrelevant {}
  rcases hall _ _ hregrouped (.int 1) "x" { bindings := some .empty } with hdeep | hdeep | hagree
  · cases hdeep
  · cases hdeep
  · exact hagree

end Context

end Conformance
