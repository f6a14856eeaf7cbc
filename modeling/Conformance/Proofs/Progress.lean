import Mathlib
import Conformance.Proofs.Grammar
import Conformance.Proofs.Parallel
import Conformance.Proofs.References

/-!
# Progress

Each part of the grammar of types has its reader (`Rule`).  Wherever a reader starts, it stops at one of the tokens ahead
or takes some of them, it does not pass the end, and what may come after the end makes no difference to it (`Confined`).
The one part that may take nothing is a list of type arguments that is not there.

A text that cannot be read is reported once, at one of its tokens.
-/

namespace Conformance

namespace Parser

/-- The parts of the grammar of types. -/
inductive Rule where
  | type
  | alternative
  | optional
  | primary
  | params
  | param
  | block
  | record
  | proc
  | named
  | typeArgs
  deriving DecidableEq

namespace Rule

/-- What the part is read as. -/
abbrev Result : Rule → Type
  | params => Params TypeExpr
  | param => Param TypeExpr
  | block => Block TypeExpr
  | typeArgs => List TypeExpr
  | _ => TypeExpr

/-- The reader of the part, with the fuel of the types in it. -/
def reader {ε : Type} (scope : Scope ε) (fuel : Nat) : (rule : Rule) → Parser ε rule.Result
  | type => typeExpr scope fuel
  | alternative => do return joined .intersection (← separatedBy .ampersand (optionalType scope fuel))
  | optional => optionalType scope fuel
  | primary => Parser.primary scope (typeExpr scope fuel) (optionalType scope fuel)
  | params => Parser.params (typeExpr scope fuel)
  | param => Parser.param (typeExpr scope fuel)
  | block => Parser.block (typeExpr scope fuel)
  | record => Parser.record (typeExpr scope fuel)
  | proc => Parser.proc (typeExpr scope fuel) (optionalType scope fuel)
  | named => Parser.named scope (typeExpr scope fuel)
  | typeArgs => Parser.typeArgs (typeExpr scope fuel)

end Rule

variable {ε α : Type} {c : Cursor} {ts : List Token} {last : Token}

/-- The reader stays within the tokens, of which the last is the end.  It may take nothing only where that is allowed. -/
structure Confined (E : ε → Prop) (idle : Prop) (p : Parser ε α) (ts : List Token) (last : Token)
    (mentions : List String) : Prop where
  advances : ∀ a c, p.run ⟨ts ++ [last], mentions⟩ = .ok (a, c) →
    ∃ w rest, ts = w ++ rest ∧ c.tokens = rest ++ [last] ∧ (w = [] → idle)
  stops : ∀ h, p.run ⟨ts ++ [last], mentions⟩ = .error h → (∃ e, h.reason = .lookup e ∧ E e) ∨
    ∃ message, ∃ t ∈ ts ++ [last], h.reason = .malformed message t.span
  unseen : ∀ more, p.run ⟨ts ++ last :: more, mentions⟩ =
    (p.run ⟨ts ++ [last], mentions⟩).map fun r => (r.1, { r.2 with tokens := r.2.tokens ++ more })

/-- Every part takes tokens, type arguments that are not there apart. -/
theorem takes_rule (scope : Scope ε) {fuel : Nat} (hfuel : 2 * c.tokens.length + 2 ≤ fuel) (rule : Rule) :
    RunsAt (fun e => ∃ name, scope.resolve name = .error e) c (rule.reader scope fuel)
      fun w _ _ => w = [] → rule = .typeArgs ∧ c.atMark .lbracket = false := by
  have hE : ∀ name e, scope.resolve name = .error e → ∃ name, scope.resolve name = .error e := fun name _ h => ⟨name, h⟩
  have hL : ∀ nested : Parser ε TypeExpr, Lists (fun _ _ => True) nested := fun _ _ _ _ _ _ _ _ => trivial
  have htypes := takes_typeExpr_optionalType hE (fun _ => hL _) fuel
  have hnested (n : Nat) (hn : n ≤ c.tokens.length) := htypes.1 n (by omega)
  have hresult (n : Nat) (hn : n ≤ c.tokens.length) := htypes.2 n (by omega)
  have hspent {p : Parser ε TypeExpr} {idle : Prop} (hp : RunsAt (fun e => ∃ name, scope.resolve name = .error e) c p
      fun w rest t => Good scope (fun _ _ => True) false w rest [t]) : RunsAt _ c p fun w _ _ => w = [] → idle :=
    hp.mono fun _ _ t _ h hw => absurd hw (h.spent t (List.mem_singleton_self t))
  cases rule with
  | type => exact hspent (hnested _ le_rfl c le_rfl)
  | alternative => exact hspent (takes_joined rfl (fun _ => ⟨rfl, rfl, id⟩) (hresult _ le_rfl) c le_rfl)
  | optional => exact hspent (hresult _ le_rfl c le_rfl)
  | primary =>
    exact hspent (takes_primary hE (hL _) (fun m hm => hnested m hm.le) (fun m hm => hresult m hm.le) le_rfl)
  | record => exact hspent (takes_record (fun m hm => hnested m hm.le) le_rfl)
  | named => exact hspent (takes_named hE (fun m hm => hnested m hm.le) le_rfl)
  | params =>
    refine (takes_params (hnested _ le_rfl) le_rfl).mono fun w _ _ _ h hw => ?_
    obtain ⟨o, inner, e, rfl, -⟩ := h
    cases hw
  | param =>
    exact (takes_param (hnested _ le_rfl) le_rfl).mono fun _ _ q _ h hw =>
      absurd hw (h.good.spent q.type (List.mem_singleton_self _))
  | block =>
    exact (takes_block (hL _) (hnested _ le_rfl) le_rfl).mono fun _ _ b _ h hw =>
      absurd hw (h.1.spent b.result (by simp [Block.types]))
  | proc =>
    refine (takes_proc (hL _) (hnested _ le_rfl) (hresult _ le_rfl) le_rfl (x := ⟨.mark .caret, "^", default⟩) rfl).mono ?_
    exact fun _ _ _ _ h hw => absurd hw h.2
  | typeArgs => exact (takes_typeArgs (hnested _ le_rfl) le_rfl).mono fun _ _ _ _ h hw => ⟨rfl, h.2 hw⟩

/-- Type arguments that are not there are read as none, and nothing is taken. -/
theorem run_typeArgs_absent (nested : Parser ε TypeExpr) (h : c.atMark .lbracket = false) :
    (typeArgs nested).run c = .ok ([], c) := by
  have haccept : (accept .lbracket : Parser ε Bool).run c = .ok (false, c) :=
    if_neg (Bool.eq_false_iff.1 h)
  change Except.bind ((accept .lbracket : Parser ε Bool).run c) _ = _
  rw [haccept]
  rfl

theorem parallel_rule (tail : Option (List Token)) (scope : Scope ε) (fuel : Nat) (rule : Rule) :
    Parallel tail _ (Kept True) (rule.reader scope fuel) (rule.reader scope fuel) := by
  have hR : Congruence tail (Parallel (ε := ε) tail) := congruence_parallel
  have hlookup : ∀ names name, Parallel tail _ (Kept True) (lookup ⟨names, scope.resolve⟩ name)
      (lookup ⟨names, scope.resolve⟩ name) := parallel_lookup scope.resolve
  obtain ⟨hnested, hresult⟩ := parallel_types scope (⟨le_rfl, fun _ => rfl⟩ : Fuel tail fuel fuel)
  cases rule with
  | type => exact hnested
  | alternative => exact hR.bind (hR.separatedBy hresult (by decide)) fun _ _ h => hR.pure fun hsame => by rw [h hsame]
  | optional => exact hresult
  | primary => exact hR.primary hlookup hnested hresult
  | params => exact hR.params hnested
  | param => exact hR.param hnested
  | block => exact hR.block hnested
  | record => exact hR.record hnested
  | proc => exact hR.proc hnested hresult
  | named => exact hR.named hlookup hnested
  | typeArgs => exact hR.typeArgs hnested

theorem RunsAt.confined {E : ε → Prop} {idle : Prop} {p : Parser ε α} {mentions : List String}
    (hruns : RunsAt E ⟨ts ++ [last], mentions⟩ p fun w _ _ => w = [] → idle) (hlast : last.kind = .endOfText)
    (hp : ∀ tail, Parallel tail α (Kept True) p p) : Confined E idle p ts last mentions := by
  have hadvances : ∀ a c, p.run ⟨ts ++ [last], mentions⟩ = .ok (a, c) →
      ∃ w rest, ts = w ++ rest ∧ c.tokens = rest ++ [last] ∧ (w = [] → idle) := by
    intro a c hrun
    obtain ⟨w, hmoves, hw⟩ := hruns.takes a c hrun
    obtain ⟨rest, hts, hrest⟩ := hmoves.within rfl hlast
    exact ⟨w, rest, hts, hrest, hw⟩
  have hstops : ∀ h, p.run ⟨ts ++ [last], mentions⟩ = .error h → (∃ e, h.reason = .lookup e ∧ E e) ∨
      ∃ message, ∃ t ∈ ts ++ [last], h.reason = .malformed message t.span := by
    intro h hrun
    obtain ⟨w, c, hmoves, hfair⟩ := hruns.fed h hrun
    cases hreason : h.reason with
    | malformed message span =>
      rw [hreason] at hfair
      exact .inr ⟨message, c.token, hmoves.token_mem rfl hlast, by rw [hfair]⟩
    | lookup e =>
      rw [hreason] at hfair
      exact .inl ⟨e, rfl, hfair⟩
    | exhausted =>
      rw [hreason] at hfair
      exact hfair.elim
  refine ⟨hadvances, hstops, fun more => ?_⟩
  rcases hp (some (last :: more)) [] ⟨ts ++ [last], mentions⟩ ⟨ts ++ last :: more, mentions⟩
    (.append more hlast (.inl rfl) ts) rfl with ⟨h, hrun, hstop⟩ | ⟨a, a', c₁, c₁', hrun, hrun', hsame, halike, hmentions⟩
  · have hmirrored : Mirrored (some (last :: more)) h.reason := by
      intro us hus
      cases hus
      refine ⟨fun hkind => ?_, fun hreason => ?_⟩
      · cases hlast.symm.trans hkind
      · rcases hstops h hrun with ⟨e, he, -⟩ | ⟨message, t, -, ht⟩
        · cases hreason.symm.trans he
        · cases hreason.symm.trans ht
    obtain ⟨⟨reason, mentions'⟩, hrun', rfl, hreason⟩ := hstop hmirrored
    obtain rfl : reason = h.reason := hreason (by simp)
    rw [hrun, hrun']
    rfl
  · obtain ⟨w, rest, -, hrest, -⟩ := hadvances a c₁ hrun
    obtain ⟨w', e, hw', htokens⟩ := halike.split
    obtain ⟨rfl, -⟩ := List.append_inj' (hrest.symm.trans hw') rfl
    obtain ⟨tokens, mentions₁⟩ := c₁'
    rw [hrun, hrun', ← hsame trivial]
    dsimp only at htokens hmentions
    subst htokens hmentions
    simp [Except.map, hrest]

end Parser

namespace Registry

/-- Reading goes on and stays within its tokens.  From every place on, the reader of each part of the grammar ends: it fails
at one of the tokens that are left or in a lookup, or it takes tokens and does not pass the end.  Only type arguments may
take nothing: where no bracket opens them there are none, and the reader stays.  What comes after the end makes no
difference.  A text whose characters all
belong to tokens is reported with one diagnostic, at one of its tokens, if it breaks the grammar. -/
theorem reading_progress :
    (∀ {ε : Type} (scope : Parser.Scope ε) (rule : Parser.Rule) (ts : List Token) (last : Token) (mentions : List String)
      (fuel : Nat), last.kind = .endOfText → 2 * (ts ++ [last]).length + 2 ≤ fuel →
      Parser.Confined (fun e => ∃ name, scope.resolve name = .error e)
        (rule = .typeArgs ∧ Parser.Cursor.atMark ⟨ts ++ [last], mentions⟩ .lbracket = false) (rule.reader scope fuel) ts last
        mentions) ∧
    (∀ {ε : Type} (scope : Parser.Scope ε) (fuel : Nat) (c : Parser.Cursor), c.atMark .lbracket = false →
      (Parser.Rule.typeArgs.reader scope fuel).run c = .ok ([], c)) ∧
    ∀ (resolve : Resolve) (text : String) (stream : Token.Stream) (fault : Fault), Token.tokenize text = .ok stream →
      stream.diagnostics = [] → (∃ names, (readType resolve names text).result = .error fault) ∨
        (readSignature resolve text).result = .error fault →
      (∃ name, resolve name = .error fault) ∨
        ∃ d, fault = .malformed text [d] ∧ ∃ t ∈ stream.tokens, d.span = some t.span := by
  refine ⟨?_, fun scope fuel c h => Parser.run_typeArgs_absent _ h, ?_⟩
  · intro ε scope rule ts last mentions fuel hlast hfuel
    exact (Parser.takes_rule scope hfuel rule).confined hlast fun tail => Parser.parallel_rule tail scope fuel rule
  · intro resolve text stream fault hlex hclean hread
    have hreported : (∃ name, resolve name = .error fault) ∨ ∃ ds, fault = .malformed text ds ∧
        (stream.diagnostics = [] → ∃ d, ds = [d] ∧ ∃ t ∈ stream.tokens, d.span = some t.span) := by
      rcases hread with ⟨names, hread⟩ | hread
      · exact readWith_error (Parser.takes_wholeType (E := fun e => ∃ name, resolve name = .error e)
          (L := fun _ _ => True) (fun name _ h => ⟨name, h⟩) fun _ _ _ _ _ _ _ _ => trivial) hlex hread
      · exact readWith_error (Parser.takes_wholeSignature (E := fun e => ∃ name, resolve name = .error e)
          (L := fun _ _ _ => True) (fun name _ h => ⟨name, h⟩) (fun _ _ _ _ _ _ _ _ _ => trivial)
          (fun _ _ _ _ _ _ _ _ => trivial) text) hlex hread
    refine hreported.imp_right fun ⟨ds, hfault, hone⟩ => ?_
    obtain ⟨d, rfl, hspan⟩ := hone hclean
    exact ⟨d, hfault, hspan⟩

/-- Where no bracket opens type arguments, their reader gives none and stays. -/
theorem type_arguments_stay : (Parser.Rule.typeArgs.reader ⟨[], everything⟩ 4).run ⟨[⟨.endOfText, "", default⟩], []⟩ =
    .ok ([], ⟨[⟨.endOfText, "", default⟩], []⟩) := rfl

/-- The tokens of a tuple that is not closed. -/
def openTuple : List Token := [⟨.mark .lbracket, "[", ⟨0, 1, 1, 1⟩⟩, ⟨.identifier, "int", ⟨1, 4, 1, 2⟩⟩]

/-- The token after them. -/
def openTupleEnd : Token := ⟨.endOfText, "", ⟨4, 4, 1, 5⟩⟩

theorem reading_progress_open_tuple :
    (∀ (rule : Parser.Rule) (mentions : List String), Parser.Confined (fun e => ∃ name, everything name = .error e)
      (rule = .typeArgs ∧ Parser.Cursor.atMark ⟨openTuple ++ [openTupleEnd], mentions⟩ .lbracket = false)
      (rule.reader ⟨[], everything⟩ 8) openTuple openTupleEnd mentions) ∧
    (Parser.Rule.typeArgs.reader ⟨[], everything⟩ 8).run ⟨[openTupleEnd], []⟩ = .ok ([], ⟨[openTupleEnd], []⟩) ∧
    ∃ fault d, (readType everything [] "[int").result = .error fault ∧ fault = .malformed "[int" [d] ∧
      ∃ t ∈ openTuple ++ [openTupleEnd], d.span = some t.span := by
  have hlex : Token.tokenize "[int" = .ok ⟨openTuple ++ [openTupleEnd], []⟩ := by cbv
  refine ⟨fun rule mentions => reading_progress.1 ⟨[], everything⟩ rule openTuple openTupleEnd mentions 8 rfl (by decide),
    reading_progress.2.1 ⟨[], everything⟩ 8 ⟨[openTupleEnd], []⟩ rfl, ?_⟩
  cases hread : (readType everything [] "[int").result with
  | ok t =>
    have hfails : (readType everything [] "[int").result.isOk = false := by cbv
    rw [hread] at hfails
    cases hfails
  | error fault =>
    rcases reading_progress.2.2 everything _ _ fault hlex rfl (.inl ⟨[], hread⟩) with ⟨name, hname⟩ | ⟨d, hd⟩
    · cases hname
    · exact ⟨fault, d, rfl, hd⟩

end Registry

end Conformance
