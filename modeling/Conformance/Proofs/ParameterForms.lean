import Mathlib
import Conformance.Proofs.Reading

/-!
# Parameter lists as written

The parameters of a list are separated by commas, and `listItems` finds them among the tokens by counting brackets.  Each
is written in one of five forms, which can be told by its first tokens (`Form.of`).

The reader puts each parameter into a group as it comes, if it may follow those before it (`Params.Placed`).
`Params.Grouped` says in what order parameters have come that were put into groups so: required, optional, rest and
trailing ones, then keywords, and last the keyword rest.  There is one deviation from that: trailing parameters may stand
before the rest parameter, if there are optional ones before them.
-/

namespace Conformance

variable {commas : Bool} {w : List Token}

/-! ## Balanced tokens -/

namespace TokenKind

variable {k : TokenKind}

/-- Is it an opening bracket? -/
def opens : TokenKind → Bool
  | .mark .lparen | .mark .lbracket | .mark .lbrace => true
  | _ => false

/-- Is it a closing bracket? -/
def closes : TokenKind → Bool
  | .mark .rparen | .mark .rbracket | .mark .rbrace => true
  | _ => false

/-- Does a parenthesis after it open a parameter list?  That of a proc stands after a caret, and that of a block after a
brace. -/
def announces : TokenKind → Bool
  | .mark .caret | .mark .lbrace => true
  | _ => false

/-- A mark that is a bracket, a comma or a caret. -/
def structural : TokenKind → Bool
  | .mark .comma | .mark .caret => true
  | k => k.opens || k.closes

theorem closes_of_opens (h : k.opens = true) : k.closes = false := by
  cases k with
  | mark m =>
    revert h
    cases m <;> decide
  | _ => rfl

theorem announces_of_closes (h : k.closes = true) : k.announces = false := by
  cases k with
  | mark m =>
    revert h
    cases m <;> decide
  | _ => rfl

theorem of_structural (h : k.structural = false) :
    k.opens = false ∧ k.closes = false ∧ k ≠ .mark .comma ∧ k.announces = false := by
  cases k with
  | mark m =>
    revert h
    cases m <;> decide
  | _ => simp [opens, closes, announces]

end TokenKind

/-- Every bracket among the tokens is closed, and all commas stand in brackets, or may stand outside as well. -/
inductive Closed : (commas : Bool) → List Token → Prop
  | nil {commas : Bool} : Closed commas []
  | token {commas : Bool} {t : Token} (hopens : t.kind.opens = false) (hcloses : t.kind.closes = false)
      (hcomma : t.kind = .mark .comma → commas = true) : Closed commas [t]
  | group {commas : Bool} {o c : Token} {w : List Token} (ho : o.kind.opens = true) (hc : c.kind.closes = true)
      (hw : Closed true w) : Closed commas (o :: (w ++ [c]))
  | append {commas : Bool} {w w' : List Token} (hw : Closed commas w) (hw' : Closed commas w') : Closed commas (w ++ w')

theorem Closed.loosen (h : Closed commas w) : Closed true w := by
  induction h with
  | nil => exact .nil
  | token hopens hcloses _ => exact .token hopens hcloses fun _ => rfl
  | group ho hc hw _ => exact .group ho hc hw
  | append _ _ ihw ihw' => exact .append ihw ihw'

/-- Balanced tokens do not start with a closing bracket. -/
theorem Closed.head (h : Closed commas w) : ∀ t ∈ w.head?, t.kind.closes = false := by
  induction h with
  | nil => simp
  | token _ hcloses _ => simpa using hcloses
  | @group _ o _ _ ho _ _ _ =>
    simpa using TokenKind.closes_of_opens ho
  | @append _ w w' _ _ ihw ihw' =>
    cases w with
    | nil => simpa using ihw'
    | cons t w => simpa using ihw

/-! ## The parameters among the tokens -/

/-- The parameters of a list, up to the bracket that closes it, where so many brackets are open in it. -/
def splitItems : (depth : Nat) → List Token → List (List Token)
  | _, [] => [[]]
  | depth, t :: ts =>
    if depth = 0 ∧ t.kind.closes = true then [[]]
    else if depth = 0 ∧ t.kind = .mark .comma then [] :: splitItems 0 ts
    else
      let inside := if t.kind.closes then depth - 1 else if t.kind.opens then depth + 1 else depth
      (splitItems inside ts).modifyHead (t :: ·)

/-- The parameters of a list, after its opening bracket. -/
def listItems : List Token → List (List Token)
  | [] => []
  | t :: ts => if t.kind.closes then [] else splitItems 0 (t :: ts)

theorem splitItems_opens {t : Token} (h : t.kind.opens = true) (depth : Nat) (ts : List Token) :
    splitItems depth (t :: ts) = (splitItems (depth + 1) ts).modifyHead (t :: ·) := by
  have hcloses := TokenKind.closes_of_opens h
  have hcomma : t.kind ≠ .mark .comma := by
    intro hk
    rw [hk] at h
    cases h
  simp [splitItems, h, hcloses, hcomma]

theorem splitItems_closes {t : Token} (h : t.kind.closes = true) (depth : Nat) (ts : List Token) :
    splitItems (depth + 1) (t :: ts) = (splitItems depth ts).modifyHead (t :: ·) := by
  simp [splitItems, h]

theorem modifyHead_append (w w' : List Token) (items : List (List Token)) :
    (items.modifyHead (w' ++ ·)).modifyHead (w ++ ·) = items.modifyHead (w ++ w' ++ ·) := by
  cases items <;> simp

/-- Balanced tokens belong to one parameter. -/
theorem Closed.splitItems (h : Closed commas w) {depth : Nat} (hdepth : commas = true → 0 < depth) (rest : List Token) :
    Conformance.splitItems depth (w ++ rest) = (Conformance.splitItems depth rest).modifyHead (w ++ ·) := by
  induction h generalizing depth rest with
  | nil =>
    cases hrest : Conformance.splitItems depth rest <;> simp [hrest]
  | @token commas t hopens hcloses hcomma =>
    have hno : ¬ (depth = 0 ∧ t.kind = .mark .comma) := by
      rintro ⟨rfl, hk⟩
      exact absurd (hdepth (hcomma hk)) (lt_irrefl 0)
    simp [Conformance.splitItems, hopens, hcloses, hno]
  | @group commas o c w ho hc hw ih =>
    have htokens : o :: (w ++ [c]) ++ rest = o :: (w ++ c :: rest) := by simp
    rw [htokens, splitItems_opens ho, ih fun _ => Nat.succ_pos depth, splitItems_closes hc]
    cases Conformance.splitItems depth rest <;> simp
  | @append commas w w' _ _ ihw ihw' =>
    rw [List.append_assoc, ihw hdepth, ihw' hdepth, modifyHead_append]

/-- Parameters with commas between them. -/
inductive Row : List (List Token) → List Token → Prop
  | last (item : List Token) : Row [item] item
  | cons (item : List Token) {comma : Token} {items : List (List Token)} {w : List Token}
      (hcomma : comma.kind = .mark .comma) (hrow : Row items w) : Row (item :: items) (item ++ comma :: w)

theorem Row.splitItems {items : List (List Token)} {rest : List Token} {c : Token} (h : Row items w)
    (hitems : ∀ item ∈ items, Closed false item) (hc : c.kind.closes = true) :
    Conformance.splitItems 0 (w ++ c :: rest) = items := by
  induction h with
  | last item =>
    rw [(hitems item (by simp)).splitItems (by simp)]
    simp [Conformance.splitItems, hc]
  | @cons item comma items w hcomma hrow ih =>
    have hcloses : (TokenKind.mark .comma).closes = false := rfl
    have htail := ih fun item hitem => hitems item (List.mem_cons_of_mem _ hitem)
    rw [List.append_assoc, (hitems item (by simp)).splitItems (by simp), List.cons_append]
    simp [Conformance.splitItems, hcloses, hcomma, htail]

theorem Row.listItems {items : List (List Token)} {rest : List Token} {c : Token} (h : Row items w)
    (hitems : ∀ item ∈ items, Closed false item) (hw : Closed true w) (hne : w ≠ []) (hc : c.kind.closes = true) :
    Conformance.listItems (w ++ c :: rest) = items := by
  cases w with
  | nil => exact absurd rfl hne
  | cons t w =>
    have hhead : t.kind.closes = false := hw.head t rfl
    rw [List.cons_append, Conformance.listItems, hhead]
    exact h.splitItems hitems hc

/-! ## Forms -/

/-- How a parameter is written: `T`, `?T`, `*T`, `name: T` or `?name: T`, and `**T`. -/
inductive Form where
  | plain
  | optional
  | rest
  | keyword (required : Bool) (name : String)
  | restKeywords
  deriving DecidableEq, Repr

namespace Form

/-- The name that tokens start with, if a colon follows. -/
def keywordName? : List Token → Option String
  | word :: colon :: _ => if word.isWord && colon.kind == .mark .colon then some word.lexeme else none
  | _ => none

/-- The form of a parameter with these tokens. -/
def of : List Token → Form
  | [] => plain
  | t :: ts =>
    match t.kind with
    | .mark .starStar => restKeywords
    | .mark .star => rest
    | .mark .question => (keywordName? ts).elim optional (keyword false)
    | _ => (keywordName? (t :: ts)).elim plain (keyword true)

/-- The name of a keyword parameter is that of a word. -/
theorem word_of_keyword {required : Bool} {name : String} (h : of w = keyword required name) :
    ∃ t ∈ w, t.isWord = true ∧ t.lexeme = name := by
  have hname : ∀ {ts : List Token} {f : Form} {required' : Bool}, (keywordName? ts).elim f (keyword required') =
      keyword required name → (∀ r, f ≠ keyword r name) → ∃ t ∈ ts, t.isWord = true ∧ t.lexeme = name := by
    intro ts f required' hf hne
    match ts with
    | [] => exact absurd hf (hne _)
    | [_] => exact absurd hf (hne _)
    | word :: colon :: ts =>
      rw [keywordName?] at hf
      split at hf
      · rename_i hword
        rw [Bool.and_eq_true] at hword
        cases hf
        exact ⟨word, List.mem_cons_self, hword.1, rfl⟩
      · exact absurd hf (hne _)
  cases w with
  | nil => cases h
  | cons t ts =>
    rw [of] at h
    split at h
    · cases h
    · cases h
    · obtain ⟨x, hx, hword⟩ := hname h (by rintro _ ⟨⟩)
      exact ⟨x, List.mem_cons_of_mem t hx, hword⟩
    · exact hname h (by rintro _ ⟨⟩)

/-- The number of tokens before the type. -/
def size : Form → Nat
  | plain => 0
  | optional => 1
  | rest => 1
  | keyword required _ => if required then 2 else 3
  | restKeywords => 1

/-- The forms of a parameter list in the order that is accepted: required parameters, optional ones, the rest, trailing
ones, keywords with different names, and the keyword rest.  The first `early` trailing parameters stand before the rest
parameter; then there are optional parameters before them. -/
def Arranged (early : Nat) (forms : List Form) : Prop :=
  ∃ (required optional late : Nat) (hasRest hasRestKeywords : Bool) (keywords : List (Bool × String)),
    forms = List.replicate required Form.plain ++ List.replicate optional Form.optional ++
      List.replicate early Form.plain ++ List.replicate hasRest.toNat Form.rest ++ List.replicate late Form.plain ++
      keywords.map (fun k => Form.keyword k.1 k.2) ++ List.replicate hasRestKeywords.toNat Form.restKeywords ∧
    (keywords.map (·.2)).Nodup ∧ (0 < early → 0 < optional ∧ hasRest = true)

end Form

/-! ## Groups -/

namespace Params

variable {τ : Type} {ps : Params τ} {early : Nat} {keywords : List (Bool × String × Param τ)}

/-- The groups with one more parameter. -/
def place (acc : Params τ) (e : Form × Param τ) : Params τ :=
  match e.1 with
  | .plain =>
    if acc.rest.isSome || !acc.optional.isEmpty then { acc with trailing := acc.trailing ++ [e.2] }
    else { acc with required := acc.required ++ [e.2] }
  | .optional => { acc with optional := acc.optional ++ [e.2] }
  | .rest => { acc with rest := some e.2 }
  | .keyword true name => { acc with requiredKeywords := acc.requiredKeywords ++ [(name, e.2)] }
  | .keyword false name => { acc with optionalKeywords := acc.optionalKeywords ++ [(name, e.2)] }
  | .restKeywords => { acc with restKeywords := some e.2 }

/-- May a parameter of the form follow those in the groups? -/
structure Admits (acc : Params τ) (f : Form) : Prop where
  unfinished : acc.restKeywords = none
  positional : f = .plain ∨ f = .optional ∨ f = .rest → acc.keywords = []
  optional : f = .optional → acc.rest = none ∧ acc.trailing = []
  rest : f = .rest → acc.rest = none
  keyword : ∀ required name, f = .keyword required name → name ∉ acc.keywords.map (·.1)

/-- The parameters are put into groups one after another, and each may follow those before it. -/
inductive Placed : Params τ → List (Form × Param τ) → Params τ → Prop
  | nil {acc : Params τ} : Placed acc [] acc
  | cons {acc ps : Params τ} {e : Form × Param τ} {es : List (Form × Param τ)} (he : acc.Admits e.1)
      (hes : Placed (acc.place e) es ps) : Placed acc (e :: es) ps

/-- The parameters of the groups as written, with the first `early` trailing ones before the rest parameter. -/
def written (ps : Params τ) (early : Nat) (keywords : List (Bool × String × Param τ)) : List (Form × Param τ) :=
  ps.required.map (Form.plain, ·) ++ ps.optional.map (Form.optional, ·) ++
    (ps.trailing.take early).map (Form.plain, ·) ++ ps.rest.toList.map (Form.rest, ·) ++
    (ps.trailing.drop early).map (Form.plain, ·) ++ keywords.map (fun k => (Form.keyword k.1 k.2.1, k.2.2)) ++
    ps.restKeywords.toList.map (Form.restKeywords, ·)

/-- What is known of groups that were written so. -/
structure Grouped (ps : Params τ) (early : Nat) (keywords : List (Bool × String × Param τ)) : Prop where
  early_le : early ≤ ps.trailing.length
  before_rest : 0 < early → ps.optional ≠ [] ∧ ps.rest.isSome = true
  after_optional : ps.trailing ≠ [] → ps.optional ≠ [] ∨ ps.rest.isSome = true
  required : (keywords.filter (·.1)).map (·.2) = ps.requiredKeywords
  optional : (keywords.filter (!·.1)).map (·.2) = ps.optionalKeywords
  distinct : (keywords.map (·.2.1)).Nodup

theorem grouped_empty : ({} : Params τ).Grouped 0 [] := by
  constructor <;> simp

theorem written_empty : ({} : Params τ).written 0 [] = [] := rfl

/-- The first trailing parameters are not before the rest parameter if there is none. -/
theorem Grouped.early_eq_zero (h : ps.Grouped early keywords) (hrest : ps.rest = none) : early = 0 := by
  by_contra hne
  have hsome := (h.before_rest (Nat.pos_of_ne_zero hne)).2
  rw [hrest] at hsome
  cases hsome

/-- The keyword parameters of the groups are those that were written. -/
theorem Grouped.perm_keywords (h : ps.Grouped early keywords) : ps.keywords.Perm (keywords.map (·.2)) := by
  rw [Params.keywords, ← h.required, ← h.optional, ← List.map_append]
  exact (List.filter_append_perm (·.1) keywords).map _

theorem Grouped.keywords_eq_nil (h : ps.Grouped early keywords) (hno : ps.keywords = []) : keywords = [] := by
  simpa [hno] using h.perm_keywords

theorem Grouped.mem_names (h : ps.Grouped early keywords) {k : Bool × String × Param τ} (hk : k ∈ keywords) :
    k.2.1 ∈ ps.keywords.map (·.1) :=
  List.mem_map_of_mem (h.perm_keywords.mem_iff.2 (List.mem_map_of_mem hk))

/-- One more parameter. -/
theorem Grouped.place {acc : Params τ} {e : Form × Param τ} (h : acc.Grouped early keywords) (he : acc.Admits e.1) :
    ∃ early' keywords', (acc.place e).Grouped early' keywords' ∧
      (acc.place e).written early' keywords' = acc.written early keywords ++ [e] := by
  obtain ⟨f, q⟩ := e
  have hopen := he.unfinished
  cases f with
  | plain =>
    have hkeywords := he.positional (.inl rfl)
    obtain rfl := h.keywords_eq_nil hkeywords
    by_cases hgroup : (acc.rest.isSome || !acc.optional.isEmpty) = true
    · refine ⟨early, [], ?_, ?_⟩
      · simp only [Params.place, if_pos hgroup]
        refine { h with early_le := ?_, after_optional := fun _ => ?_ }
        · have := h.early_le
          simp only [List.length_append]
          omega
        · simpa [or_comm] using hgroup
      · simp only [Params.place, if_pos hgroup, written, hopen]
        simp [List.take_append_of_le_length h.early_le, List.drop_append_of_le_length h.early_le]
    · have hnone : acc.rest = none ∧ acc.optional = [] := by simpa using hgroup
      have htrailing : acc.trailing = [] := by
        by_contra hne
        rcases h.after_optional hne with ho | hr
        · exact ho hnone.2
        · rw [hnone.1] at hr
          cases hr
      obtain rfl := h.early_eq_zero hnone.1
      refine ⟨0, [], ?_, ?_⟩
      · simp only [Params.place, if_neg hgroup]
        exact { h with }
      · simp [Params.place, written, hopen, hnone, htrailing]
  | optional =>
    have hkeywords := he.positional (.inr (.inl rfl))
    obtain rfl := h.keywords_eq_nil hkeywords
    obtain ⟨hrest, htrailing⟩ := he.optional rfl
    obtain rfl := h.early_eq_zero hrest
    refine ⟨0, [], ?_, ?_⟩
    · exact {
        h with
        before_rest := by simp
        after_optional := fun _ => .inl (by simp [Params.place]) }
    · simp [Params.place, written, hopen, hrest, htrailing]
  | rest =>
    have hkeywords := he.positional (.inr (.inr rfl))
    obtain rfl := h.keywords_eq_nil hkeywords
    have hrest := he.rest rfl
    obtain rfl := h.early_eq_zero hrest
    have hoptional (hpos : 0 < acc.trailing.length) : acc.optional ≠ [] := by
      refine (h.after_optional (List.ne_nil_of_length_pos hpos)).resolve_right ?_
      rw [hrest]
      rintro ⟨⟩
    refine ⟨acc.trailing.length, [], ?_, ?_⟩
    · exact {
        h with
        early_le := le_rfl
        before_rest := fun hpos => ⟨hoptional hpos, rfl⟩
        after_optional := fun _ => .inr rfl }
    · simp [Params.place, written, hopen, hrest]
  | keyword required name =>
    have hnew : name ∉ keywords.map (·.2.1) := by
      intro hold
      obtain ⟨k, hk, rfl⟩ := List.mem_map.1 hold
      exact he.keyword required k.2.1 rfl (h.mem_names hk)
    have hdistinct : ((keywords ++ [(required, name, q)]).map (·.2.1)).Nodup := by
      rw [List.map_append, List.map_cons, List.map_nil]
      exact (List.perm_append_singleton name _).nodup_iff.2 (List.nodup_cons.2 ⟨hnew, h.distinct⟩)
    refine ⟨early, keywords ++ [(required, name, q)], ?_, ?_⟩
    · have hrequired := h.required
      have hoptional := h.optional
      cases required with
      | true =>
        exact {
          h with
          required := by simp [Params.place, hrequired]
          optional := by simp [Params.place, hoptional]
          distinct := hdistinct }
      | false =>
        exact {
          h with
          required := by simp [Params.place, hrequired]
          optional := by simp [Params.place, hoptional]
          distinct := hdistinct }
    · cases required with
      | true => simp [Params.place, written, hopen]
      | false => simp [Params.place, written, hopen]
  | restKeywords =>
    refine ⟨early, keywords, { h with }, ?_⟩
    simp [Params.place, written, hopen]

theorem Grouped.mem_written (h : ps.Grouped early keywords) {q : Param τ} (hq : q ∈ ps.list) :
    q ∈ (ps.written early keywords).map (·.2) := by
  have htrailing : ∀ q ∈ ps.trailing, q ∈ ps.trailing.take early ∨ q ∈ ps.trailing.drop early := by
    intro q hq
    rw [← List.mem_append, List.take_append_drop]
    exact hq
  have hkeywords : ∀ q ∈ ps.keywords.map (·.2), q ∈ keywords.map (·.2.2) := by
    intro q hq
    rw [(h.perm_keywords.map _).mem_iff, List.map_map] at hq
    exact hq
  simp only [list, List.mem_append] at hq
  simp only [written, List.map_append, List.map_map, Function.comp_def, List.mem_append, List.map_id']
  rcases hq with ((((hq | hq) | hq) | hq) | hq) | hq
  · tauto
  · tauto
  · tauto
  · have := htrailing q hq
    tauto
  · have := hkeywords q hq
    tauto
  · tauto

/-- The names of a parameter are words. -/
def Spelled (e : Form × Param τ) : Prop :=
  (∀ name ∈ e.2.name, Text.isWord name = true) ∧
    ∀ required name, e.1 = .keyword required name → Text.isWord name = true

/-- What is known of a parameter list whatever its types are. -/
theorem Grouped.read {ps : Params TypeExpr} {keywords : List (Bool × String × Param TypeExpr)}
    (h : ps.Grouped early keywords) (hwords : ∀ e ∈ ps.written early keywords, Spelled e) : ps.Read fun _ => True where
  params q hq := by
    obtain ⟨e, he, rfl⟩ := List.mem_map.1 (h.mem_written hq)
    exact ⟨trivial, (hwords e he).1⟩
  keywords kq hkq := by
    obtain ⟨k, hk, rfl⟩ := List.mem_map.1 (h.perm_keywords.mem_iff.1 hkq)
    refine (hwords (.keyword k.1 k.2.1, k.2.2) ?_).2 k.1 k.2.1 rfl
    exact List.mem_append_left _ (List.mem_append_right _ (List.mem_map.2 ⟨k, hk, rfl⟩))
  distinct := by
    rw [(h.perm_keywords.map _).nodup_iff, List.map_map]
    exact h.distinct
  trailing := h.after_optional

/-- Parameters that were put into groups came in this order. -/
theorem Placed.grouped {acc : Params τ} {es : List (Form × Param τ)} (h : acc.Placed es ps)
    (hacc : acc.Grouped early keywords) : ∃ early' keywords', ps.Grouped early' keywords' ∧
      ps.written early' keywords' = acc.written early keywords ++ es := by
  induction h generalizing early keywords with
  | nil => exact ⟨early, keywords, hacc, (List.append_nil _).symm⟩
  | cons he _ ih =>
    obtain ⟨early₁, keywords₁, hgrouped, hwritten⟩ := hacc.place he
    obtain ⟨early₂, keywords₂, hgrouped', hwritten'⟩ := ih hgrouped
    exact ⟨early₂, keywords₂, hgrouped', by rw [hwritten', hwritten, List.append_assoc, List.singleton_append]⟩

theorem Grouped.arranged (h : ps.Grouped early keywords) :
    Form.Arranged early ((ps.written early keywords).map (·.1)) := by
  have hform (f : Form) (qs : List (Param τ)) : (qs.map (f, ·)).map (·.1) = List.replicate qs.length f := by
    simp [Function.comp_def]
  have hsome (q : Option (Param τ)) : q.toList.length = q.isSome.toNat := by
    cases q <;> rfl
  refine ⟨ps.required.length, ps.optional.length, ps.trailing.length - early, ps.rest.isSome, ps.restKeywords.isSome,
    keywords.map fun k => (k.1, k.2.1), ?_, ?_, fun hpos => ?_⟩
  · have hearly := List.length_take_of_le h.early_le
    simp only [written, List.map_append, hform, hsome, hearly, List.length_drop, List.map_map]
    rfl
  · simpa [Function.comp_def] using h.distinct
  · exact ⟨List.length_pos_of_ne_nil (h.before_rest hpos).1, (h.before_rest hpos).2⟩

end Params

end Conformance
