import Mathlib
import Conformance.Proofs.Grammar
import Conformance.Proofs.References

/-!
# The order of parameters

A signature is accepted only if the parameters of every parameter list in it come in order: required ones, optional
ones, the rest, trailing ones, keywords, and the keyword rest (`Form.Arranged`).  The lists are found among the tokens of
the text: a signature starts with one, after its type variables, and a parenthesis after a caret or a brace opens one
(`ParamListAt`).

There is one deviation from the order.  Trailing parameters may also stand before the rest parameter, if there are
optional ones before them; the groups are then not in the order in which they were written.
-/

namespace Conformance

variable {ps : Params TypeExpr}

/-! ## Tokens of texts -/

namespace Token

/-- Nothing stands after the end of a text. -/
theorem tokenize_end {source : String} {stream : Stream} (h : tokenize source = .ok stream) {w rest : List Token}
    {e : Token} (htokens : stream.tokens = w ++ e :: rest) (he : e.kind = .endOfText) : rest = [] := by
  obtain ⟨ts, e', hstream, -, -, -, hts⟩ := ((tokenize_cut h).located rfl).final
  rw [hstream] at htokens
  cases rest using List.reverseRecOn with
  | nil => rfl
  | append_singleton rest last =>
    have hsplit : ts ++ [e'] = (w ++ e :: rest) ++ [last] := by rw [htokens]; simp
    have hw := (List.append_inj' hsplit rfl).1
    exact absurd he (hts e (by simp [hw])).1

end Token

/-! ## The fuel of nested types -/

namespace Parser

variable {ε : Type} {scope : Scope ε}

/-- More fuel changes nothing, unless it ran out. -/
theorem same_typeExpr_optionalType {fuel fuel' : Nat} (h : fuel ≤ fuel') :
    Same .exhausted _ (Kept True) (typeExpr scope fuel) (typeExpr scope fuel') ∧
      Same .exhausted _ (Kept True) (optionalType scope fuel) (optionalType scope fuel') := by
  have hR : Congruence none (Same (ε := ε) .exhausted) := congruence_same .exhausted
  induction fuel generalizing fuel' with
  | zero =>
    constructor
    · intro c hfuel
      rw [typeExpr] at hfuel
      exact absurd rfl (hfuel _ rfl)
    · intro c hfuel
      rw [optionalType] at hfuel
      exact absurd rfl (hfuel _ rfl)
  | succ fuel ih =>
    obtain ⟨fuel', rfl⟩ : ∃ k, fuel' = k + 1 := ⟨fuel' - 1, by omega⟩
    obtain ⟨hnested, hresult⟩ := ih (Nat.le_of_succ_le_succ h)
    have hlookup (names : List String) (name : String) : Same .exhausted _ (Kept True)
        (lookup ⟨names, scope.resolve⟩ name) (lookup ⟨names, scope.resolve⟩ name) :=
      same_iff_run_eq.2 fun _ _ => rfl
    exact ⟨hR.typeExpr_succ hresult, hR.optionalType_succ hlookup hnested hresult⟩

/-- The fuel of a nested type lasts. -/
theorem fed_typeExpr (c : Cursor) (h : Halt ε) (hrun : (typeExpr scope (2 * c.tokens.length + 2)).run c = .error h) :
    h.reason ≠ .exhausted := by
  have htakes : Takes (fun _ => True) scope (fun _ _ => True) false c.tokens.length
      (typeExpr scope (2 * c.tokens.length + 2)) :=
    (takes_typeExpr_optionalType (fun _ _ _ => trivial) (fun _ _ _ _ _ _ _ _ => trivial) _).1 _ le_rfl
  obtain ⟨_, _, -, hfair⟩ := (htakes c le_rfl).fed h hrun
  intro hreason
  rw [hreason] at hfair
  exact hfair

theorem same_nestedType (fuel : Nat) : Same .exhausted _ (Kept True) (typeExpr scope fuel) (nestedType scope) := by
  refine same_iff_run_eq.2 fun c hfuel => ?_
  have hrun : (nestedType scope).run c = (typeExpr scope (2 * c.tokens.length + 2)).run c := by
    rw [nestedType, StateT.run_bind]
    rfl
  rw [hrun]
  rcases Nat.le_total fuel (2 * c.tokens.length + 2) with hle | hle
  · exact same_iff_run_eq.1 (same_typeExpr_optionalType hle).1 c hfuel
  · exact (same_iff_run_eq.1 (same_typeExpr_optionalType hle).1 c (fed_typeExpr c)).symm

/-- The tokens after an opening parenthesis are read as the parameter list. -/
def ReadAs (scope : Scope ε) (inner : List Token) (ps : Params TypeExpr) : Prop :=
  ∃ c c' y, (params (nestedType scope)).run c = .ok (ps, c') ∧ c.tokens = y :: inner

theorem lists_readAs (scope : Scope ε) (fuel : Nat) : Lists (ReadAs scope) (typeExpr scope fuel) := by
  intro c ps c' y inner hrun htokens
  refine ⟨c, c', y, ?_, htokens⟩
  rw [same_iff_run_eq.1 ((congruence_same .exhausted).params (same_nestedType fuel)) c fun h hh => ?_, hrun]
  rw [hrun] at hh
  cases hh

/-- A parameter list that was read is laid out in order. -/
theorem ReadAs.laid {inner : List Token} (h : ReadAs scope inner ps) : Laid (nestedType scope) inner ps := by
  obtain ⟨c, c', y, hrun, htokens⟩ := h
  have hnested := takes_nestedType (E := fun _ => True) (fun _ _ _ => trivial) (lists_readAs scope) c.tokens.length
  obtain ⟨w, ⟨hw, -⟩, o, inner', e, rfl, -, -, -, hlaid, -⟩ := (takes_params hnested le_rfl).takes ps c' hrun
  rw [htokens] at hw
  have hinner : inner = inner' ++ e :: c'.tokens := by
    have := (List.cons.inj hw).2
    simpa using this
  rw [hinner]
  exact hlaid

/-! ## Signatures -/

/-- The parameter lists of a signature that is read are read where they stand in its text. -/
theorem takes_lists (resolve : String → Except ε (List (Capability TypeExpr))) (text : String) (c : Cursor) :
    RunsAt (fun e => ∃ name, resolve name = .error e) c (wholeSignature resolve text)
      (SignatureAt (fun names => ReadAs ⟨names, resolve⟩) resolve text) :=
  takes_wholeSignature (fun name _ h => ⟨name, h⟩) (fun _ => lists_readAs _)
    (fun _ c _ c' y _ hrun htokens => ⟨c, c', y, hrun, htokens⟩) text c

end Parser

/-! ## Forms in order -/

namespace Form

/-- The parameters before the rest parameter. -/
theorem takeWhile_rest {before late keywords last : List Form} (h : ∀ f ∈ before, f = plain ∨ f = optional) :
    (before ++ [rest] ++ late ++ keywords ++ last).takeWhile (· ≠ rest) = before := by
  rw [List.append_assoc, List.append_assoc, List.append_assoc, List.takeWhile_append_of_pos]
  · simp
  · intro f hf
    rcases h f hf with rfl | rfl <;> rfl

/-- In a list in order, no trailing parameter stands before the rest parameter. -/
theorem Arranged.early_eq_zero {early : Nat} {forms : List Form} (h : Arranged early forms) (h₀ : Arranged 0 forms) :
    early = 0 := by
  obtain ⟨required, optional, late, hasRest, hasRestKeywords, keywords, hforms, -, hearly⟩ := h
  obtain ⟨required', optional', late', hasRest', hasRestKeywords', keywords', hforms', -, -⟩ := h₀
  by_contra hne
  have hpos := Nat.pos_of_ne_zero hne
  obtain ⟨hoptional, rfl⟩ := hearly hpos
  have hrest : Form.rest ∈ forms := by simp [hforms]
  have hrest' : hasRest' = true := by
    rw [hforms'] at hrest
    cases hasRest' with
    | true => rfl
    | false => simp at hrest
  subst hrest'
  -- both orders have the same parameters before the rest one
  have hbefore : List.replicate required plain ++ List.replicate optional Form.optional ++ List.replicate early plain =
      List.replicate required' plain ++ List.replicate optional' Form.optional := by
    have htake := congrArg (List.takeWhile (· ≠ Form.rest)) (hforms.symm.trans hforms')
    simp only [Bool.toNat_true, List.replicate_one, List.replicate_zero, List.append_nil] at htake
    rw [takeWhile_rest ?_, takeWhile_rest ?_] at htake
    · exact htake
    · simp only [List.mem_append, List.mem_replicate]
      tauto
    · simp only [List.mem_append, List.mem_replicate]
      tauto
  have hmem : Form.optional ∈ List.replicate required' plain ++ List.replicate optional' Form.optional := by
    rw [← hbefore]
    simp [hoptional.ne']
  have hoptional' : optional' ≠ 0 := by
    rintro rfl
    simp at hmem
  have hlast := congrArg List.getLast? hbefore
  simp [List.getLast?_append, List.getLast?_replicate, hne, hoptional'] at hlast

end Form

/-! ## Signatures as texts -/

/-- The tokens after the parenthesis that opens a parameter list of a signature: the method's own list, or the list of a
proc or of a block. -/
inductive ParamListAt (tokens : List Token) : List Token → Prop
  | method {y : Token} {inner : List Token} (htokens : Parser.afterTypeParams tokens = y :: inner)
      (hy : y.kind = .mark .lparen) : ParamListAt tokens inner
  | nested {before inner : List Token} {x y : Token} (htokens : tokens = before ++ x :: y :: inner)
      (hx : x.kind.announces = true) (hy : y.kind = .mark .lparen) : ParamListAt tokens inner

namespace Parser

variable {ε : Type} {resolve : String → Except ε (List (Capability TypeExpr))} {w rest inner : List Token} {s : Signature}
  {text : String} {L : List String → List Token → Params TypeExpr → Prop}

/-- Every parameter list in the text is read. -/
theorem SignatureAt.exists_readAs (h : SignatureAt L resolve text w rest s) (hrest : rest.length ≤ 1)
    (hlist : ParamListAt (w ++ rest) inner) : ∃ ps, L s.typeParams inner ps := by
  cases hlist with
  | method htokens hy => exact h.params.announced htokens hy
  | @nested before _ x y htokens hx hy =>
    have hopens : OpensIn (w ++ rest) [] inner := ⟨before, x, y :: inner, y, htokens, hx, by simp, hy⟩
    rcases opensIn_append.1 hopens with hopens | ⟨before, x, more, y, htail, -, hmore, -⟩
    · rw [List.append_nil] at hopens
      exact h.types.lists inner hopens
    · -- an opening parenthesis would be a second token after the end
      rw [List.append_nil] at hmore
      rw [htail, hmore, List.length_append, List.length_cons, List.length_cons] at hrest
      omega

/-- A parameter list that is not empty stands in the text. -/
theorem paramListAt_of_listedIn {L : List Token → Params TypeExpr → Prop} (h : ListedIn L w rest ps) :
    ps = {} ∨ ∃ inner, ParamListAt (w ++ rest) inner ∧ L inner ps := by
  refine h.imp_right fun ⟨inner, hopens, hread⟩ => ⟨inner, ?_, hread⟩
  obtain ⟨before, x, more, y, hw, hx, hmore, hy⟩ := hopens
  have htokens : w ++ rest = before ++ x :: y :: inner := by
    rw [hw, List.append_assoc, List.cons_append, hmore]
  exact .nested htokens hx hy

/-- The parameters of a list that was read, in the order in which they are written. -/
theorem ReadAs.written {scope : Scope ε} (h : ReadAs scope inner ps) : ∃ early keywords, ps.Grouped early keywords ∧
      List.Forall₂ (fun item e => Form.of item = e.1 ∧ Spells (nestedType scope) (item.drop e.1.size) e.2)
        (listItems inner) (ps.written early keywords) ∧
      Form.Arranged early ((listItems inner).map Form.of) := by
  obtain ⟨early, keywords, hgrouped, hitems⟩ := h.laid
  refine ⟨early, keywords, hgrouped, hitems, ?_⟩
  have hforms : (listItems inner).map Form.of = (ps.written early keywords).map (·.1) := by
    rw [← List.forall₂_eq_eq_eq, List.forall₂_map_left_iff, List.forall₂_map_right_iff]
    exact hitems.imp fun _ _ hitem => hitem.1
  rw [hforms]
  exact hgrouped.arranged

end Parser

/-- The parameter lists of a signature: its own, that of its block, and those of the procs in its types and of their
blocks. -/
def Signature.HasParams (s : Signature) (ps : Params TypeExpr) : Prop :=
  ps = s.params ∨ (∃ b ∈ s.block, ps = b.params) ∨ ∃ t ∈ s.types, ∃ u, t.Contains u ∧ ps ∈ u.paramLists

namespace Registry

/-- A signature that is read, with its tokens. -/
theorem readSignature_lists {resolve : Resolve} {text : String} {stream : Token.Stream} {s : Signature}
    (hlex : Token.tokenize text = .ok stream) (hread : (readSignature resolve text).result = .ok s) :
    ∃ w rest, stream.tokens = w ++ rest ∧ rest.length ≤ 1 ∧
      Parser.SignatureAt (fun names => Parser.ReadAs ⟨names, resolve⟩) resolve text w rest s := by
  obtain ⟨stream', w, rest, hlex', hw, -, hlists⟩ := readWith_ok (Parser.takes_lists resolve text) hread
  cases hlex.symm.trans hlex'
  refine ⟨w, rest, hw, ?_, hlists⟩
  cases rest with
  | nil => simp
  | cons e rest => simp [Token.tokenize_end hlex hw (hlists.ends e rfl)]

/-- A signature that is not read is malformed, or an interface could not be looked up. -/
theorem readSignature_error {resolve : Resolve} {text : String} {stream : Token.Stream} {fault : Fault}
    (hlex : Token.tokenize text = .ok stream) (hread : (readSignature resolve text).result = .error fault) :
    (∃ ds, fault = .malformed text ds) ∨ ∃ name, resolve name = .error fault :=
  (readWith_error (Parser.takes_lists resolve text) hlex hread).symm.imp_left fun ⟨ds, hds, _⟩ => ⟨ds, hds⟩

/-- Only parameter lists in order are accepted.  If a signature is read, every parameter list in its text is read, with
the parameters in order and each put into the group of its form: the groups, one after another, are the parameters as
written.  The order is that of `Form.Arranged`; where `early` is not zero, so many trailing parameters stand before the
rest parameter, which is so only if the list is not in the order of `Form.Arranged 0`.  The parameter lists of the
signature are those in the text.  A text with a parameter list in any other order is malformed, unless an interface in it
cannot be looked up. -/
theorem parameter_order (resolve : Resolve) {text : String} {stream : Token.Stream}
    (hlex : Token.tokenize text = .ok stream) :
    (∀ s, (readSignature resolve text).result = .ok s →
      (∀ inner, ParamListAt stream.tokens inner → ∃ ps early keywords,
        Parser.ReadAs ⟨s.typeParams, resolve⟩ inner ps ∧ ps.Grouped early keywords ∧
        List.Forall₂ (fun item e => Form.of item = e.1 ∧
            Parser.Spells (Parser.nestedType ⟨s.typeParams, resolve⟩) (item.drop e.1.size) e.2)
          (listItems inner) (ps.written early keywords) ∧
        Form.Arranged early ((listItems inner).map Form.of) ∧
        (Form.Arranged 0 ((listItems inner).map Form.of) → early = 0)) ∧
      Parser.ListRead (Parser.ReadAs ⟨s.typeParams, resolve⟩) (Parser.afterTypeParams stream.tokens) s.params ∧
      ∀ ps, s.HasParams ps → ps = {} ∨
        ∃ inner, ParamListAt stream.tokens inner ∧ Parser.ReadAs ⟨s.typeParams, resolve⟩ inner ps) ∧
    ∀ inner, ParamListAt stream.tokens inner → (∀ early, ¬ Form.Arranged early ((listItems inner).map Form.of)) →
      ∃ fault, (readSignature resolve text).result = .error fault ∧
        ((∃ ds, fault = .malformed text ds) ∨ ∃ name, resolve name = .error fault) := by
  constructor
  · intro s hread
    obtain ⟨w, rest, htokens, hrest, hlists⟩ := readSignature_lists hlex hread
    rw [htokens]
    refine ⟨fun inner hlist => ?_, hlists.params, fun ps hps => ?_⟩
    · obtain ⟨ps, hps⟩ := hlists.exists_readAs hrest hlist
      obtain ⟨early, keywords, hgrouped, hitems, harranged⟩ := hps.written
      exact ⟨ps, early, keywords, hps, hgrouped, hitems, harranged, harranged.early_eq_zero⟩
    · rcases hps with rfl | ⟨b, hb, rfl⟩ | ⟨t, ht, u, hu, hps⟩
      · rcases hlists.params with ⟨y, inner, hinner, hy, hread⟩ | ⟨-, hempty⟩
        · exact .inr ⟨inner, .method hinner hy, hread⟩
        · exact .inl hempty
      · exact Parser.paramListAt_of_listedIn (hlists.block b hb)
      · exact Parser.paramListAt_of_listedIn (hlists.types.built t ht u hu ps hps)
  · intro inner hlist hno
    cases hread : (readSignature resolve text).result with
    | error fault => exact ⟨fault, rfl, readSignature_error hlex hread⟩
    | ok s =>
      obtain ⟨w, rest, htokens, hrest, hlists⟩ := readSignature_lists hlex hread
      obtain ⟨ps, hps⟩ := hlists.exists_readAs hrest (htokens ▸ hlist)
      obtain ⟨early, -, -, -, harranged⟩ := hps.written
      exact absurd harranged (hno early)

/-- A signature with a trailing parameter before the rest parameter. -/
def trailingFirst : String := "(?int, str, *float) -> void"

/-- Its tokens from the first parameter on. -/
def trailingFirstInner : List Token :=
  [⟨.mark .question, "?", ⟨1, 2, 1, 2⟩⟩, ⟨.identifier, "int", ⟨2, 5, 1, 3⟩⟩, ⟨.mark .comma, ",", ⟨5, 6, 1, 6⟩⟩,
    ⟨.identifier, "str", ⟨7, 10, 1, 8⟩⟩, ⟨.mark .comma, ",", ⟨10, 11, 1, 11⟩⟩, ⟨.mark .star, "*", ⟨12, 13, 1, 13⟩⟩,
    ⟨.identifier, "float", ⟨13, 18, 1, 14⟩⟩, ⟨.mark .rparen, ")", ⟨18, 19, 1, 19⟩⟩,
    ⟨.mark .arrow, "->", ⟨20, 22, 1, 21⟩⟩, ⟨.keyword (.base .void), "void", ⟨23, 27, 1, 24⟩⟩,
    ⟨.endOfText, "", ⟨27, 27, 1, 28⟩⟩]

/-- Its tokens. -/
def trailingFirstTokens : List Token := ⟨.mark .lparen, "(", ⟨0, 1, 1, 1⟩⟩ :: trailingFirstInner

/-- What it is read as. -/
def trailingFirstRead : Signature where
  params := {
    optional := [⟨.classRef "int" [], none⟩]
    rest := some ⟨.classRef "float" [], none⟩
    trailing := [⟨.classRef "str" [], none⟩] }
  result := .base .void
  block := none
  typeParams := []
  text := trailingFirst

theorem arranged_trailingFirst : Form.Arranged 1 ((listItems trailingFirstInner).map Form.of) :=
  ⟨0, 1, 0, true, false, [], by decide, by decide, fun _ => ⟨by decide, rfl⟩⟩

theorem parameter_order_trailing_first :
    Token.tokenize trailingFirst = .ok ⟨trailingFirstTokens, []⟩ ∧
      (readSignature everything trailingFirst).result = .ok trailingFirstRead ∧
      ParamListAt trailingFirstTokens trailingFirstInner ∧
      ¬ Form.Arranged 0 ((listItems trailingFirstInner).map Form.of) ∧
      ∃ ps early keywords, Parser.ReadAs ⟨[], everything⟩ trailingFirstInner ps ∧ ps.Grouped early keywords ∧
        List.Forall₂ (fun item e => Form.of item = e.1 ∧
            Parser.Spells (Parser.nestedType ⟨[], everything⟩) (item.drop e.1.size) e.2)
          (listItems trailingFirstInner) (ps.written early keywords) ∧
        Form.Arranged early ((listItems trailingFirstInner).map Form.of) ∧ 0 < early := by
  have hlex : Token.tokenize trailingFirst = .ok ⟨trailingFirstTokens, []⟩ := by cbv
  have hread : (readSignature everything trailingFirst).result = .ok trailingFirstRead := by cbv
  have hlist : ParamListAt trailingFirstTokens trailingFirstInner := .method rfl rfl
  have hdeviates : ¬ Form.Arranged 0 ((listItems trailingFirstInner).map Form.of) := fun h₀ =>
    absurd (arranged_trailingFirst.early_eq_zero h₀) (by decide)
  refine ⟨hlex, hread, hlist, hdeviates, ?_⟩
  obtain ⟨ps, early, keywords, hps, hgrouped, hitems, harranged, -⟩ :=
    ((parameter_order everything hlex).1 _ hread).1 trailingFirstInner hlist
  refine ⟨ps, early, keywords, hps, hgrouped, hitems, harranged, Nat.pos_of_ne_zero ?_⟩
  rintro rfl
  exact hdeviates harranged

end Registry

end Conformance
