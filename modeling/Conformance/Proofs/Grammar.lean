import Mathlib
import Conformance.Proofs.Consumption
import Conformance.Proofs.Cutting

/-!
# What the readers of types take

The readers of the grammar, gone through one by one: what each of them takes is balanced, every parameter list that is
opened in it is read as one, and the types that it gives have no parameter lists but those (`Good`).  A type takes at
least one token before it nests, so that the fuel lasts (`takes_typeExpr_optionalType`).  What is known of types and
signatures that were read from texts follows (`Registry.readType_read`, `Registry.readSignature_read`).
-/

namespace Conformance

variable {α : Type} {Q : List Token → List Token → α → Prop}

namespace Parser

variable {ε : Type} {c : Cursor} {E : ε → Prop} {L : List Token → Params TypeExpr → Prop} {n : Nat} {scope : Scope ε}
  {nested result : Parser ε TypeExpr} {m : Mark} {x : Token}

/-- A mark that may be next, and that is no bracket, comma or caret. -/
theorem RunsAt.mark {f : Bool → Parser ε α} (hm : (TokenKind.mark m).structural = false)
    (h : ∀ b marks c', c.tokens = marks ++ c'.tokens → (∀ t ∈ marks, t.kind.structural = false) →
      RunsAt E c' (f b) fun w => Q (marks ++ w)) :
    RunsAt E c (Parser.accept m >>= f) Q := by
  refine .accept (fun t c' ht hk => h true [t] c' ht ?_) fun _ => h false [] c rfl (by simp)
  rw [← hk] at hm
  simpa using hm

/-! ## Parameter lists and blocks -/

/-- How a parameter list that may be missing is read: from a parenthesis, or as the empty one where there is none. -/
def ListRead (L : List Token → Params TypeExpr → Prop) (tokens : List Token) (ps : Params TypeExpr) : Prop :=
  (∃ y inner, tokens = y :: inner ∧ y.kind = .mark .lparen ∧ L inner ps) ∨
    (∀ y inner, tokens = y :: inner → y.kind ≠ .mark .lparen) ∧ ps = {}

/-- A parameter list that is announced is read. -/
theorem ListRead.announced {tokens inner : List Token} {ps : Params TypeExpr} {y : Token} (h : ListRead L tokens ps)
    (htokens : tokens = y :: inner) (hy : y.kind = .mark .lparen) : ∃ ps, L inner ps := by
  rcases h with ⟨y', inner', htokens', -, hread⟩ | ⟨hno, -⟩
  · obtain ⟨rfl, rfl⟩ := List.cons.inj (htokens.symm.trans htokens')
    exact ⟨ps, hread⟩
  · exact absurd hy (hno y inner htokens)

/-- A parameter list that was read is empty, or stands after the token that announces it. -/
theorem ListRead.listed {w rest : List Token} {ps : Params TypeExpr} (h : ListRead L (w ++ rest) ps)
    (hx : x.kind.announces = true) : ListedIn L (x :: w) rest ps := by
  rcases h with ⟨y, inner, htokens, hy, hread⟩ | ⟨-, rfl⟩
  · exact .inr ⟨inner, ⟨[], x, w, y, rfl, hx, htokens, hy⟩, hread⟩
  · exact .inl rfl

/-- The lists that the reader reads are such as are asked for. -/
def Lists (L : List Token → Params TypeExpr → Prop) (nested : Parser ε TypeExpr) : Prop :=
  ∀ c ps c' y inner, (params nested).run c = .ok (ps, c') → c.tokens = y :: inner → L inner ps

theorem takes_optionalParams (hL : Lists L nested) (hnested : Takes E scope L false n nested) (hn : c.tokens.length ≤ n) :
    RunsAt E c (optionalParams nested) fun w rest ps =>
      Good scope L false w rest ps.types ∧ ListRead L (w ++ rest) ps ∧ Shaped w ps := by
  refine .get (.ite (fun hopen => ?_) fun hopen =>
    .pure ⟨.nil, .inr ⟨fun y inner htokens hy => hopen ?_, rfl⟩, shaped_empty⟩)
  · refine (takes_params hnested hn).recorded.mono fun w rest ps hw ⟨hps, c', hrun, htokens⟩ => ?_
    obtain ⟨o, inner, e, rfl, ho, he, hgood, -, hshaped⟩ := hps
    refine ⟨hgood.enclosed (by rw [ho]; rfl) (by rw [ho]; rfl) (by rw [he]; rfl), ?_, ?_⟩
    · exact .inl ⟨o, inner ++ [e] ++ rest, rfl, ho, hL c ps c' o _ hrun hw⟩
    · exact hshaped.within [o] [e]
  · rw [List.nil_append] at htokens
    rw [Cursor.atMark, Cursor.kind_eq, Cursor.token, htokens]
    simpa using hy

/-- A block after its parameters and the binding of its receiver. -/
theorem takes_blockResult (hnested : Takes E scope L false n nested) (hn : c.tokens.length ≤ n) (ps : Params TypeExpr)
    (required : Bool) : RunsAt E c (do
      expect .arrow "Expected '->' in block type"
      let result ← nested
      expect .rbrace "Expected '\x7d' to close block type"
      return (⟨ps, result, required⟩ : Block TypeExpr)) fun w rest b => b.params = ps ∧
        ∃ inner e, w = inner ++ [e] ∧ e.kind = .mark .rbrace ∧ Good scope L true inner (e :: rest) [b.result] := by
  refine .expect fun t c₁ ht hk => ?_
  have hlength := length_le (w := [t]) ht hn
  refine (hnested c₁ (by omega)).bind fun r w c₂ hw hr => .expect fun e c₃ he hclose => .pure ?_
  rw [he] at hr
  exact ⟨rfl, t :: w, e, by simp, hclose, (Good.plain (by rw [hk]; rfl)).append hr.loosen⟩

theorem takes_block (hL : Lists L nested) (hnested : Takes E scope L false n nested) (hn : c.tokens.length ≤ n) :
    RunsAt E c (block nested) fun w rest b =>
      Good scope L false w rest b.types ∧ ListedIn L w rest b.params ∧ Shaped w b.params := by
  refine .mark rfl fun optional marks c₀ hmarks hplain => ?_
  have hlength₀ := length_le hmarks hn
  refine .expect fun o c₁ ho hopen => ?_
  have hlength := length_le (w := [o]) ho le_rfl
  refine (takes_optionalParams hL hnested (by omega)).bind fun ps w c₂ hw ⟨hps, hread, hshaped⟩ => ?_
  have hlength' := length_le hw le_rfl
  refine .mono (Q := fun w rest b => b.params = ps ∧ ∃ inner e, w = inner ++ [e] ∧ e.kind = .mark .rbrace ∧
    Good scope L true inner (e :: rest) [b.result]) ?rest fun w' rest b hw' ⟨hparams, inner, e, hinner, he, hgood⟩ => ?_
  case rest =>
    refine .acceptIte (fun t c₃ ht hk => .get (.ite (fun hself => ?_) fun _ => .failBind)) fun _ =>
      takes_blockResult hnested (by omega) ps _
    have hkind := beq_iff_eq.1 hself
    refine .advance (by rw [hkind]; rintro ⟨⟩) fun s c₄ hs hsk _ => .expect fun colon c₅ hcolon hck => ?_
    have hlength₃ := length_le (w := [t]) ht le_rfl
    have hlength₄ := length_le (w := [s]) hs le_rfl
    have hlength₅ := length_le (w := [colon]) hcolon le_rfl
    refine (hnested c₅ (by omega)).bind fun self w₁ c₆ hw₁ hself => .expect fun r c₇ hr hrk => ?_
    have hlength₆ := length_le hw₁ le_rfl
    have hlength₇ := length_le (w := [r]) hr le_rfl
    refine (takes_blockResult hnested (by omega) ps _).mono fun w₂ rest b hw₂ ⟨hparams, inner, e, hinner, he, hgood⟩ => ?_
    refine ⟨hparams, t :: ([s] ++ [colon] ++ w₁ ++ [r]) ++ inner, e, by simp [hinner], he, ?_⟩
    have hreceiver : Good scope L true ([s] ++ [colon] ++ w₁) (r :: (w₂ ++ rest)) [self] := by
      rw [hr, hw₂] at hself
      have hword : s.kind.structural = false := by
        rw [← hsk, hkind]
        rfl
      exact ((Good.plain hword).append (.plain (by rw [hck]; rfl))).append hself.loosen
    have hbinding : Good scope L true (t :: ([s] ++ [colon] ++ w₁ ++ [r])) (w₂ ++ rest) [self] :=
      hreceiver.enclosed (by rw [hk]; rfl) (by rw [hk]; rfl) (by rw [hrk]; rfl)
    have hrest : w₂ ++ rest = inner ++ e :: rest := by simp [hinner]
    rw [hrest] at hbinding
    exact (hbinding.append hgood).types fun u hu => List.mem_append_right _ hu
  · have hall : Good scope L true (w ++ inner) (e :: rest) b.types := by
      rw [hw', hinner, List.append_assoc] at hps
      rw [Block.types, hparams]
      exact hps.loosen.append hgood
    have hbraces : Good scope L false (o :: (w ++ inner ++ [e])) rest b.types := by
      refine hall.group (by rw [hopen]; rfl) (by rw [he]; rfl) fun _ y inner' htokens hy => hread.announced ?_ hy
      rw [← htokens, hw', hinner]
      simp
    have hlisted : ListedIn L (o :: w) (w' ++ rest) ps := by
      rw [hw'] at hread
      exact hread.listed (by rw [hopen]; rfl)
    rw [hparams]
    refine ⟨?_, hlisted.left.right, ?_⟩
    · rw [hinner, ← List.append_assoc]
      exact (Good.plains hplain).append hbraces
    · simpa using hshaped.within (marks ++ [o]) w'

theorem takes_optionalBlock (hL : Lists L nested) (hnested : Takes E scope L false n nested) (hn : c.tokens.length ≤ n) :
    RunsAt E c (optionalBlock nested) fun w rest b =>
      Good scope L false w rest (b.elim [] Block.types) ∧ ∀ b' ∈ b, ListedIn L w rest b'.params ∧ Shaped w b'.params := by
  refine .get (.ite (fun _ => ?_) fun _ => .pure ⟨.nil, by simp⟩)
  refine (takes_block hL hnested hn).bind fun b w c₁ hw ⟨hgood, hlisted⟩ => .pure ?_
  rw [List.append_nil]
  exact ⟨hgood, fun b' hb' => Option.some.inj hb' ▸ hlisted⟩

/-! ## Names -/

theorem kind_one {t : Token} {c' : Cursor} (h : c.tokens = t :: c'.tokens) : c.kind 1 = c'.kind := by
  simp [Cursor.kind, h]

/-- The name is put together from its parts. -/
def QualifiedName.IsSpelled (name : QualifiedName) : Prop := ∃ sp : Spelling, sp.Valid ∧ name = sp.qualified

theorem QualifiedName.IsSpelled.extend {name : QualifiedName} {part : String} (h : name.IsSpelled)
    (hlink : Spelling.isLink m = true) (hpart : Text.isName part = true) :
    IsSpelled { name with bare := name.bare ++ String.ofList m.chars ++ part, last := part } := by
  obtain ⟨sp, ⟨hfirst, hparts⟩, rfl⟩ := h
  refine ⟨{ sp with parts := sp.parts ++ [(m, part)] }, ⟨hfirst, fun p hp => ?_⟩, ?_⟩
  · rcases List.mem_append.mp hp with hp | hp
    · exact hparts p hp
    · obtain rfl := List.mem_singleton.mp hp
      exact ⟨hlink, hpart⟩
  · simp [Spelling.qualified, Spelling.extend]

theorem takes_nameParts (scope : Scope ε) (L : List Token → Params TypeExpr → Prop) (name : QualifiedName)
    (fuel : Nat) (hfuel : c.tokens.length < fuel) :
    RunsAt E c (nameParts name fuel) fun w rest name' => Good scope L false w rest [] ∧
      ((∀ t ∈ w, t.Faithful) → name.IsSpelled → name'.IsSpelled) := by
  induction fuel generalizing c name with
  | zero => omega
  | succ fuel ih =>
    refine .get (.ite (fun hpart => ?_) fun _ => .pure ⟨.nil, fun _ h => h⟩)
    simp only [Bool.and_eq_true, Bool.or_eq_true, Cursor.atMark, beq_iff_eq] at hpart
    obtain ⟨m, hm, hplain, hlink⟩ : ∃ m, c.kind = .mark m ∧ (TokenKind.mark m).structural = false ∧
        Spelling.isLink m = true :=
      hpart.1.elim (fun hk => ⟨_, hk, rfl, rfl⟩) fun hk => ⟨_, hk, rfl, rfl⟩
    refine .advance (by rw [hm]; rintro ⟨⟩) fun t c₁ ht hk _ => ?_
    have hword : c₁.kind = .identifier := by rw [← kind_one ht, hpart.2]
    refine .advance (by rw [hword]; rintro ⟨⟩) fun t' c₂ ht' hk' _ => ?_
    have hlength := length_le (w := [t]) ht le_rfl
    have hlength' := length_le (w := [t']) ht' le_rfl
    simp only [List.length_singleton] at hlength hlength'
    rw [hm] at hk
    rw [hword] at hk'
    refine (ih _ (by omega)).mono fun w rest _ hw hrest => ?_
    obtain ⟨hgood, hspelled⟩ := hrest
    refine ⟨?_, fun hall hname => ?_⟩
    · exact (Good.plain (hk ▸ hplain)).append ((Good.plain (by rw [← hk']; rfl)).append hgood)
    · obtain ⟨hmark, hall⟩ := List.forall_mem_cons.1 hall
      obtain ⟨hpart, hall⟩ := List.forall_mem_cons.1 hall
      refine hspelled hall ?_
      rw [hmark.lexeme_eq hk.symm]
      exact hname.extend hlink (hpart.isName_lexeme hk'.symm)

theorem takes_qualifiedName (scope : Scope ε) (L : List Token → Params TypeExpr → Prop) :
    RunsAt E c qualifiedName fun w rest name =>
      Good scope L false w rest [] ∧ w ≠ [] ∧ ((∀ t ∈ w, t.Faithful) → name.IsSpelled) := by
  refine .mark rfl fun rooted marks c₁ hmarks hplain => .expectIdentifier fun t c₂ ht hk => .get ?_
  refine (takes_nameParts scope L _ _ (Nat.lt_succ_self _)).mono
    fun w rest _ hw ⟨hgood, hspelled⟩ => ⟨?_, by simp, fun hall => ?_⟩
  · exact (Good.plains hplain).append ((Good.plain (by rw [hk]; rfl)).append hgood)
  · obtain ⟨-, hall⟩ := List.forall_mem_append.1 hall
    obtain ⟨hfirst, hall⟩ := List.forall_mem_cons.1 hall
    exact hspelled hall ⟨⟨rooted, t.lexeme, []⟩, ⟨hfirst.isName_lexeme hk, by simp⟩, rfl⟩

theorem takes_typeArgs (hnested : Takes E scope L false n nested) (hn : c.tokens.length ≤ n) :
    RunsAt E c (typeArgs nested) fun w rest ts =>
      Good scope L false w rest ts ∧ (w = [] → c.atMark .lbracket = false) := by
  refine .acceptIte (fun o c₁ ho hopen => ?_) fun hno => .pure ⟨.nil, fun _ => hno⟩
  have hlength := length_le (w := [o]) ho hn
  have hitem : Takes E scope L true n nested := fun c hn => (hnested c hn).mono fun _ _ _ _ h => h.loosen
  refine (takes_separatedBy (fun _ _ => good_comma) hitem (by omega)).bind fun ts w c₂ hw ⟨hts, _⟩ => ?_
  refine .expect fun e c₃ he hclose => .pure ?_
  rw [he] at hts
  exact ⟨hts.enclosed (by rw [hopen]; rfl) (by rw [hopen]; rfl) (by rw [hclose]; rfl), by simp⟩

theorem takes_lookup (hE : ∀ name e, scope.resolve name = .error e → E e) (name : String) :
    RunsAt E c (lookup scope name) fun w _ methods => w = [] ∧ scope.resolve name = .ok methods := by
  cases hresolve : scope.resolve name with
  | ok methods =>
    have hrun : (lookup scope name).run c = .ok (methods, { c with mentions := c.mentions ++ [name] }) := by
      change lookup scope name c = _
      simp only [lookup, hresolve]
    refine ⟨fun a c' hr => ?_, fun h hr => ?_⟩
    · rw [hrun] at hr
      cases hr
      exact ⟨[], ⟨rfl, by simp⟩, rfl, rfl⟩
    · rw [hrun] at hr
      cases hr
  | error e =>
    have hrun : (lookup scope name).run c = .error ⟨.lookup e, c.mentions ++ [name]⟩ := by
      change lookup scope name c = _
      simp only [lookup, hresolve]
    refine ⟨fun a c' hr => ?_, fun h hr => ?_⟩
    · rw [hrun] at hr
      cases hr
    · rw [hrun] at hr
      cases hr
      exact ⟨[], c, ⟨rfl, by simp⟩, hE name e hresolve⟩

theorem takes_named (hE : ∀ name e, scope.resolve name = .error e → E e)
    (hnested : ∀ m < n, Takes E scope L false m nested) (hn : c.tokens.length ≤ n) :
    RunsAt E c (named scope nested) fun w rest t => Good scope L false w rest [t] := by
  refine (takes_qualifiedName scope L).bind fun name w c₁ hw hqualified => ?_
  obtain ⟨hname, hne, hspelled⟩ := hqualified
  refine .ite (fun hvar => .get ?var) fun hvar => ?other
  case var =>
    refine .ite (fun _ => .fail _) fun _ => .pure ?_
    rw [List.append_nil]
    refine hname.node hne (by simp [TypeExpr.children]) (by simp [TypeExpr.paramLists]) fun hall => ?_
    obtain ⟨sp, hsp, rfl⟩ := hspelled hall
    exact ⟨sp, hsp, rfl, by simpa using hvar⟩
  case other =>
    have hlength := length_le hw hn
    have hpos := List.length_pos_of_ne_nil hne
    refine (takes_typeArgs (hnested c₁.tokens.length (by omega)) le_rfl).bind fun ts w' c₂ hw' hargs => ?_
    rw [hw'] at hname
    have hgood := hname.append hargs.1
    have hne' : w ++ w' ≠ [] := List.append_ne_nil_of_left_ne_nil hne w'
    have hfree : name.bare ∉ scope.typeParams := by simpa using hvar
    refine .ite (fun hlast => ?_) fun hlast => .pure ?_
    · refine (takes_lookup hE name.bare).bind fun methods w₂ c₃ hw₂ hfound => .pure ?_
      obtain ⟨rfl, hmethods⟩ := hfound
      rw [List.nil_append] at hw₂
      rw [hw₂] at hgood
      rw [List.append_nil, List.append_nil]
      refine hgood.node hne' (by simp [TypeExpr.children]) (by simp [TypeExpr.paramLists]) fun hall => ?_
      obtain ⟨sp, hsp, rfl⟩ := hspelled (List.forall_mem_append.1 hall).1
      exact ⟨sp, hsp, rfl, hfree, hlast, hmethods⟩
    · rw [List.append_nil]
      refine hgood.node hne' (by simp [TypeExpr.children]) (by simp [TypeExpr.paramLists]) fun hall => ?_
      obtain ⟨sp, hsp, rfl⟩ := hspelled (List.forall_mem_append.1 hall).1
      exact ⟨sp, hsp, rfl, hfree, by simpa using hlast⟩

/-! ## Records, tuples and procs -/

/-- Tokens that do not start with a parenthesis. -/
def NoParen (w : List Token) : Prop := ∃ t ts, w = t :: ts ∧ t.kind ≠ .mark .lparen

theorem structural_of_literal? {k : TokenKind} {l : Literal} (h : literal? k = some l) :
    k ≠ .endOfText ∧ k.structural = false := by
  cases k with
  | mark m => cases h
  | endOfText => cases h
  | _ => exact ⟨by rintro ⟨⟩, rfl⟩

theorem noParen_of_structural {t : Token} {ts : List Token} (h : t.kind.structural = false) : NoParen (t :: ts) := by
  refine ⟨t, ts, rfl, fun hk => ?_⟩
  rw [hk] at h
  cases h

theorem NoParen.append {marks w : List Token} (hmarks : ∀ t ∈ marks, t.kind.structural = false) (h : NoParen w)
    (w' : List Token) : NoParen (marks ++ (w ++ w')) := by
  cases marks with
  | nil =>
    obtain ⟨t, ts, rfl, ht⟩ := h
    exact ⟨t, ts ++ w', rfl, ht⟩
  | cons t marks => exact noParen_of_structural (hmarks t List.mem_cons_self)

theorem takes_fieldKey (scope : Scope ε) (L : List Token → Params TypeExpr → Prop) : RunsAt E c fieldKey fun w rest key =>
    Good scope L false w rest [] ∧ NoParen w ∧ ((∀ t ∈ w, t.Faithful) → key.Short) := by
  have hpair : ∀ {m : Mark} {k : Token → Key}, c.kind ≠ .endOfText → c.kind.structural = false → c.kind 1 = .mark m →
      (TokenKind.mark m).structural = false → (∀ t : Token, c.kind = t.kind → t.Faithful → (k t).Short) →
      RunsAt E c (do let t ← advance; let _ ← advance; return k t)
        fun w rest key => Good scope L false w rest [] ∧ NoParen w ∧ ((∀ t ∈ w, t.Faithful) → key.Short) := by
    intro m k hne hplain hnext hmark hshort
    refine .advance hne fun t c₁ ht hk _ => ?_
    have hkind : c₁.kind = .mark m := by rw [← kind_one ht, hnext]
    refine .advance (by rw [hkind]; rintro ⟨⟩) fun t' c₂ ht' hk' _ => .pure ⟨?_, noParen_of_structural (hk ▸ hplain), ?_⟩
    · exact (Good.plain (hk ▸ hplain)).append (.plain (by rw [← hk', hkind]; exact hmark))
    · exact fun hall => hshort t hk (hall t List.mem_cons_self)
  refine .get (.ite (fun hkey => ?_) fun _ => ?_)
  · have hword := Cursor.isWord_of_atKeyword hkey
    have hcolon : c.kind 1 = .mark .colon := by
      rw [Cursor.atKeyword, Bool.and_eq_true, beq_iff_eq] at hkey
      exact hkey.2
    have hplain : c.kind.structural = false := by
      rw [Cursor.kind_eq]
      exact structural_of_isWord hword
    exact hpair (k := fun t => .str t.lexeme) (kind_ne_of_isWord hword) hplain hcolon rfl fun _ _ _ => trivial
  · split
    · rename_i l hl
      refine .ite (fun hnext => ?_) fun _ => .fail _
      rw [beq_iff_eq] at hnext
      exact hpair (k := fun _ => l.value) (structural_of_literal? hl).1 (structural_of_literal? hl).2 hnext rfl
        fun t hk ht => ht.short_of_literal? (hk ▸ hl)
    · exact .fail _

/-- Fields and the type of further ones, after those read so far. -/
theorem takes_recordItems (hnested : Takes E scope L false n nested) (fuel : Nat) (hn : c.tokens.length ≤ n)
    (hfuel : c.tokens.length < fuel) (fields : List (Field TypeExpr)) (extra : Option TypeExpr) :
    RunsAt E c (recordItems nested fields extra fuel) fun w rest t => ∃ fields' extra' ts, t = .record fields' extra' ∧
      (∀ u ∈ t.children, u ∈ (TypeExpr.record fields extra).children ++ ts) ∧ Good scope L true w rest ts ∧ NoParen w ∧
      ((∀ x ∈ w, x.Faithful) → (TypeExpr.record fields extra).NodeRead scope → t.NodeRead scope) := by
  induction fuel generalizing c fields extra with
  | zero => omega
  | succ fuel ih =>
    -- what follows a field, whose tokens are `w`
    have hnext : ∀ (c₁ : Cursor) (w : List Token) (u : TypeExpr) (r : List (Field TypeExpr) × Option TypeExpr),
        c.tokens = w ++ c₁.tokens → Good scope L true w c₁.tokens [u] → NoParen w →
        (∀ v ∈ (TypeExpr.record r.1 r.2).children, v ∈ (TypeExpr.record fields extra).children ++ [u]) →
        ((∀ x ∈ w, x.Faithful) → (TypeExpr.record fields extra).NodeRead scope → (TypeExpr.record r.1 r.2).NodeRead scope) →
        RunsAt E c₁ (do if ← accept .comma then recordItems nested r.1 r.2 fuel else return .record r.1 r.2)
          fun w' rest t => ∃ fields' extra' ts, t = .record fields' extra' ∧
            (∀ u ∈ t.children, u ∈ (TypeExpr.record fields extra).children ++ ts) ∧ Good scope L true (w ++ w') rest ts ∧
            NoParen (w ++ w') ∧
            ((∀ x ∈ w ++ w', x.Faithful) → (TypeExpr.record fields extra).NodeRead scope → t.NodeRead scope) := by
      intro c₁ w u r hw hu hparen hr hread
      obtain ⟨t, ts, rfl, hfirst⟩ := hparen
      have hlength := length_le hw le_rfl
      rw [List.length_cons] at hlength
      refine .acceptIte (fun comma c₂ hcomma hk => ?_) fun _ => .pure ?_
      · have hlength' := length_le (w := [comma]) hcomma le_rfl
        refine (ih (by omega) (by omega) r.1 r.2).mono fun w' rest t' hw' hrest => ?_
        obtain ⟨fields', extra', us, rfl, hchildren, hgood, -, hread'⟩ := hrest
        rw [hcomma, hw'] at hu
        refine ⟨fields', extra', [u] ++ us, rfl, fun v hv => ?_, ?_, ⟨t, _, rfl, hfirst⟩, fun hall hnode => ?_⟩
        · have := hchildren v hv
          have := hr v
          simp only [List.mem_append] at *
          tauto
        · exact hu.append ((good_comma hk).append hgood)
        · obtain ⟨hall, hall'⟩ := List.forall_mem_append.1 hall
          exact hread' (fun x hx => hall' x (List.mem_cons_of_mem _ hx)) (hread hall hnode)
      · rw [List.append_nil]
        exact ⟨r.1, r.2, [u], rfl, hr, hu, ⟨t, ts, rfl, hfirst⟩, hread⟩
    refine .acceptIte (fun t c₁ ht hk => .ite (fun _ => .failBind) fun hnone => ?further) fun _ => ?field
    case further =>
      have hlength := length_le (w := [t]) ht hn
      have hplain : t.kind.structural = false := by
        rw [hk]
        rfl
      refine (hnested c₁ (by omega)).bind fun u w c₂ hw hu => ?_
      have hextra : extra = none := by simpa using hnone
      refine hnext c₂ (t :: w) u (fields, some u) (by rw [ht, hw]; rfl) ?_ (noParen_of_structural hplain) ?_ fun _ h => h
      · exact (Good.plain hplain).append hu.loosen
      · simp [TypeExpr.children, hextra]
    case field =>
      refine .mark rfl fun optional marks c₁ hmarks hplain => ?_
      refine (takes_fieldKey scope L).bind fun key w c₂ hw hfield => .ite (fun _ => .failBind) fun hnew => ?_
      obtain ⟨hkey, hparen, hshort⟩ := hfield
      have hlength := length_le hmarks hn
      have hlength' := length_le hw le_rfl
      refine (hnested c₂ (by omega)).bind fun u w' c₃ hw' hu => ?_
      have htokens : c.tokens = marks ++ (w ++ w') ++ c₃.tokens := by
        rw [hmarks, hw, hw']
        simp
      have hgood : Good scope L true (marks ++ (w ++ w')) c₃.tokens [u] := by
        rw [hw'] at hkey
        exact (Good.plains hplain).append (hkey.loosen.append hu.loosen)
      have hchildren : ∀ v ∈ (TypeExpr.record (fields ++ [⟨key, u, !optional⟩]) extra).children,
          v ∈ (TypeExpr.record fields extra).children ++ [u] := by
        intro v hv
        simp only [TypeExpr.children, List.map_append, List.mem_append] at hv ⊢
        tauto
      have hread : (∀ x ∈ marks ++ (w ++ w'), x.Faithful) → (TypeExpr.record fields extra).NodeRead scope →
          (TypeExpr.record (fields ++ [⟨key, u, !optional⟩]) extra).NodeRead scope := by
        rintro hall ⟨hkeys, hfields⟩
        refine ⟨List.pairwise_append.2 ⟨hkeys, List.pairwise_singleton _ _, fun f hf g hg => ?_⟩, ?_⟩
        · obtain rfl := List.mem_singleton.1 hg
          simpa using fun hsame => hnew (List.any_eq_true.2 ⟨f, hf, hsame⟩)
        · refine List.forall_mem_append.2 ⟨hfields, List.forall_mem_singleton.2 (hshort fun x hx => hall x ?_)⟩
          simp [hx]
      have hrest := hnext c₃ _ u (fields ++ [⟨key, u, !optional⟩], extra) htokens hgood (hparen.append hplain w') hchildren
        hread
      simp only [List.append_assoc] at hrest
      exact hrest

theorem takes_record (hnested : ∀ m < n, Takes E scope L false m nested) (hn : c.tokens.length ≤ n) :
    RunsAt E c (record nested) fun w rest t => Good scope L false w rest [t] := by
  refine .expect fun o c₁ ho hopen => .get (.ite (fun hempty => ?empty) fun _ => .get ?items)
  case empty =>
    refine (RunsAt.pure (Q := fun w _ t => w = [] ∧ t = .record [] none) ⟨rfl, rfl⟩).bind fun t w c₂ hw ht => ?_
    obtain ⟨rfl, rfl⟩ := ht
    refine .expect fun e c₃ he hclose => .pure ?_
    have hbraces : Good scope L false (o :: ([] ++ [e])) c₃.tokens [] := by
      refine Good.nil.group (by rw [hopen]; rfl) (by rw [hclose]; rfl) fun _ y inner htokens hy => ?_
      obtain ⟨rfl, -⟩ := List.cons.inj htokens
      rw [hclose] at hy
      cases hy
    exact hbraces.node (List.cons_ne_nil _ _) (by simp [TypeExpr.children]) (by simp [TypeExpr.paramLists])
      fun _ => ⟨.nil, by simp⟩
  case items =>
    have hlength := length_le (w := [o]) ho hn
    rw [List.length_singleton] at hlength
    refine (takes_recordItems (hnested c₁.tokens.length (by omega)) _ le_rfl (Nat.lt_succ_self _) [] none).bind
      fun t w c₂ hw ht => .expect fun e c₃ he hclose => .pure ?_
    obtain ⟨fields, extra, ts, rfl, hchildren, hgood, ⟨t, ts', rfl, hfirst⟩, hread⟩ := ht
    rw [he] at hgood
    have hbraces : Good scope L false (o :: (t :: ts' ++ [e])) c₃.tokens ts := by
      refine hgood.group (by rw [hopen]; rfl) (by rw [hclose]; rfl) fun _ y inner htokens hy => ?_
      obtain ⟨rfl, -⟩ := List.cons.inj htokens
      exact absurd hy hfirst
    refine hbraces.node (List.cons_ne_nil _ _) (by simpa [TypeExpr.children] using hchildren)
      (by simp [TypeExpr.paramLists]) fun hall => hread (fun x hx => hall x ?_) ⟨.nil, by simp⟩
    exact List.mem_cons_of_mem o (List.mem_append_left [e] hx)

/-- A tuple from its opening bracket on. -/
theorem takes_tuple (hnested : Takes E scope L false n nested) (hn : c.tokens.length ≤ n) {o : Token}
    (ho : o.kind = .mark .lbracket) : RunsAt E c (tuple nested) fun w rest t => Good scope L false (o :: w) rest [t] := by
  have hitem : Takes E scope L true n nested := fun c hn => (hnested c hn).mono fun _ _ _ _ h => h.loosen
  have hclosing : ∀ (c₁ : Cursor) (w : List Token) (ts : List TypeExpr), Good scope L true w c₁.tokens ts →
      RunsAt E c₁ (do expect .rbracket "Expected ']' after tuple elements"; return .tuple ts) fun w' rest t =>
        Good scope L false (o :: (w ++ w')) rest [t] := by
    intro c₁ w ts hts
    refine .expect fun e c₂ he hclose => .pure ?_
    rw [he] at hts
    refine (hts.enclosed ?_ ?_ ?_).node (List.cons_ne_nil _ _) (by simp [TypeExpr.children])
      (by simp [TypeExpr.paramLists]) fun _ => trivial
    · rw [ho]
      rfl
    · rw [ho]
      rfl
    · rw [hclose]
      rfl
  refine .get (.ite (fun _ => ?_) fun _ => ?_)
  · exact hclosing c [] [] .nil
  · exact (takes_separatedBy (fun _ _ => good_comma) hitem hn).bind fun ts w c₁ _ hts => hclosing c₁ w ts hts.1

theorem takes_singleton (hx : x.kind.structural = false) :
    RunsAt E c singleton fun w rest t => Good scope L false (x :: w) rest [t] := by
  refine .expect fun o c₁ ho hopen => (takes_qualifiedName scope L).bind
    fun name w c₂ hw ⟨hname, _, hspelled⟩ => ?_
  refine .expect fun e c₃ he hclose => .pure ?_
  rw [he] at hname
  have hparens : Good scope L false (o :: (w ++ [e])) c₃.tokens [] :=
    hname.loosen.enclosed (by rw [hopen]; rfl) (by rw [hopen]; rfl) (by rw [hclose]; rfl)
  refine ((Good.plain hx).append hparens).node (List.cons_ne_nil _ _) (by simp [TypeExpr.children])
    (by simp [TypeExpr.paramLists]) fun hall => ?_
  obtain ⟨sp, hsp, rfl⟩ := hspelled fun t ht => hall t (by simp [ht])
  exact ⟨sp, hsp, rfl⟩

/-- Question marks after a type. -/
theorem takes_questionMarks (fuel : Nat) (hfuel : c.tokens.length < fuel) (t : TypeExpr) :
    RunsAt E c (questionMarks t fuel) fun w rest t' => ∀ before, Good scope L false before (w ++ rest) [t] →
      Good scope L false (before ++ w) rest [t'] := by
  induction fuel generalizing c t with
  | zero => omega
  | succ fuel ih =>
    refine .get (.ite (fun hmark => ?_) fun _ => .pure fun before h => by simpa using h)
    rw [Bool.and_eq_true, Cursor.atMark, beq_iff_eq] at hmark
    refine .advance (by rw [hmark.1]; rintro ⟨⟩) fun q c₁ hq hk _ => ?_
    have hlength := length_le (w := [q]) hq le_rfl
    rw [List.length_singleton] at hlength
    refine (ih (by omega) (.optional t)).mono fun w rest t' hw h before hbefore => ?_
    have hplain : q.kind.structural = false := by
      rw [← hk, hmark.1]
      rfl
    have hmarked : Good scope L false (before ++ [q]) (w ++ rest) [t] := by
      have hrest : q :: w ++ rest = [q] ++ (w ++ rest) := rfl
      rw [hrest] at hbefore
      exact hbefore.append (.plain hplain)
    have hoptional := h _ (hmarked.node (by simp) (by simp [TypeExpr.children]) (by simp [TypeExpr.paramLists])
      fun _ => trivial)
    simpa using hoptional

/-- A proc from its caret on. -/
theorem takes_proc (hL : Lists L nested) (hnested : Takes E scope L false n nested)
    (hresult : Takes E scope L false n result) (hn : c.tokens.length ≤ n) (hx : x.kind = .mark .caret) :
    RunsAt E c (proc nested result) fun w rest t => Good scope L false (x :: w) rest [t] ∧ w ≠ [] := by
  refine (takes_optionalParams hL hnested hn).bind fun ps w₁ c₁ hw₁ ⟨hps, hread, hshaped⟩ => ?_
  have hlength₁ := length_le hw₁ hn
  refine (takes_optionalBlock hL hnested (by omega)).bind fun b w₂ c₂ hw₂ ⟨hb, hblock⟩ => .expect fun t c₃ ht hk => ?_
  have hlength₂ := length_le hw₂ le_rfl
  have hlength₃ := length_le (w := [t]) ht le_rfl
  refine (hresult c₃ (by omega)).bind fun r w₃ c₄ hw₃ hr => .pure ?_
  have hcaret : Good scope L false [x] (w₁ ++ c₁.tokens) [] := by
    refine .token (.token ?_ ?_ fun hk => ?_) fun _ y inner htokens hy => hread.announced htokens hy
    · rw [hx]
      rfl
    · rw [hx]
      rfl
    · rw [hx] at hk
      cases hk
  have hresult' : Good scope L false ([t] ++ w₃) c₄.tokens [r] := (Good.plain (by rw [hk]; rfl)).append hr
  have hrest : c₂.tokens = [t] ++ w₃ ++ c₄.tokens := by rw [ht, hw₃]; rfl
  have hrest' : c₁.tokens = w₂ ++ ([t] ++ w₃) ++ c₄.tokens := by rw [hw₂, hrest, List.append_assoc w₂]
  rw [hrest] at hb hblock
  rw [hrest'] at hps
  rw [hrest'] at hread
  rw [hrest', ← List.append_assoc w₁] at hcaret
  have hall := hcaret.append (hps.append (hb.append hresult'))
  rw [List.append_nil]
  refine ⟨hall.node (by simp) ?_ ?_ fun hall => ⟨?_, fun b' hb' => ?_⟩, by simp⟩
  · intro u hu
    simp only [TypeExpr.children, List.mem_append] at hu ⊢
    tauto
  · intro ps' hps'
    simp only [TypeExpr.paramLists, List.mem_cons, List.mem_map, Option.mem_toList] at hps'
    rcases hps' with rfl | ⟨b', hb', rfl⟩
    · have hlisted' := hread.listed (x := x) (by rw [hx]; rfl)
      exact hlisted'.left
    · exact ((hblock b' hb').1.left.right (w := w₁)).right (w := [x])
  · exact hshaped.within [x] _ hall
  · exact (hblock b' hb').2.within ([x] ++ w₁) ([t] ++ w₃) (by simpa using hall)

/-! ## Types -/

theorem takes_primary (hE : ∀ name e, scope.resolve name = .error e → E e) (hL : Lists L nested)
    (hnested : ∀ m < n, Takes E scope L false m nested) (hresult : ∀ m < n, Takes E scope L false m result)
    (hn : c.tokens.length ≤ n) :
    RunsAt E c (primary scope nested result) fun w rest t => Good scope L false w rest [t] := by
  have hlt : ∀ {t : Token} {c' : Cursor}, c.tokens = t :: c'.tokens → c'.tokens.length < n := by
    intro t c' ht
    have hlength := length_le (w := [t]) ht hn
    rw [List.length_singleton] at hlength
    omega
  -- a type that is a single token
  have hleaf : ∀ u : TypeExpr, c.kind ≠ .endOfText → c.kind.structural = false → u.children = [] → u.paramLists = [] →
      (∀ t : Token, c.kind = t.kind → t.Faithful → u.NodeRead scope) →
      RunsAt E c (do let _ ← advance; return u) fun w rest t => Good scope L false w rest [t] := by
    intro u hne hplain hchildren hlists hnode
    refine .advance hne fun t c₁ ht hk _ => .pure ?_
    exact (Good.plain (hk ▸ hplain)).node (List.cons_ne_nil _ _) (by simp [hchildren]) (by simp [hlists])
      fun hall => hnode t hk (hall t List.mem_cons_self)
  refine .get ?_
  split
  case h_1 hkind =>
    refine .advance (by rw [hkind]; rintro ⟨⟩) fun o c₁ ho hk _ => ?_
    refine (hnested _ (hlt ho) c₁ le_rfl).bind fun t w c₂ hw ht => .expect fun e c₃ he hclose => .pure ?_
    rw [he] at ht
    rw [hkind] at hk
    exact ht.loosen.enclosed (by rw [← hk]; rfl) (by rw [← hk]; rfl) (by rw [hclose]; rfl)
  case h_2 hkind =>
    refine .advance (by rw [hkind]; rintro ⟨⟩) fun o c₁ ho hk _ => ?_
    exact takes_tuple (hnested _ (hlt ho)) le_rfl (hk ▸ hkind)
  case h_3 => exact takes_record hnested hn
  case h_4 hkind =>
    refine .advance (by rw [hkind]; rintro ⟨⟩) fun o c₁ ho hk _ => ?_
    exact (takes_proc hL (hnested _ (hlt ho)) (hresult _ (hlt ho)) le_rfl (hk ▸ hkind)).mono fun _ _ _ _ h => h.1
  case h_5 hkind => exact hleaf .untyped (by rw [hkind]; rintro ⟨⟩) (by rw [hkind]; rfl) rfl rfl fun _ _ _ => trivial
  case h_6 b hkind => exact hleaf (.base b) (by rw [hkind]; rintro ⟨⟩) (by rw [hkind]; rfl) rfl rfl fun _ _ _ => trivial
  case h_7 hkind =>
    refine .advance (by rw [hkind]; rintro ⟨⟩) fun o c₁ ho hk _ => ?_
    exact takes_singleton (by rw [← hk, hkind]; rfl)
  case h_8 => exact takes_named hE hnested hn
  case h_9 => exact takes_named hE hnested hn
  case h_10 =>
    split
    · rename_i l hl
      exact hleaf (.literal l) (structural_of_literal? hl).1 (structural_of_literal? hl).2 rfl rfl
        fun t hk ht => ht.short_of_literal? (hk ▸ hl)
    · exact .fail _

theorem good_joined {w rest : List Token} {ts : List TypeExpr} {join : List TypeExpr → TypeExpr}
    (hjoin : ∀ ts, (join ts).children = ts ∧ (join ts).paramLists = [] ∧ (2 ≤ ts.length → (join ts).NodeRead scope))
    (h : Good scope L false w rest ts ∧ ts ≠ []) : Good scope L false w rest [joined join ts] := by
  obtain ⟨h, hne⟩ := h
  match ts with
  | [] => exact absurd rfl hne
  | [t] => exact h
  | t :: u :: ts =>
    exact h.node (h.spent t List.mem_cons_self) (by simp [joined, hjoin]) (by simp [joined, hjoin])
      fun _ => (hjoin _).2.2 (by simp)

theorem takes_joined {join : List TypeExpr → TypeExpr} {item : Parser ε TypeExpr}
    (hm : (TokenKind.mark m).structural = false)
    (hjoin : ∀ ts, (join ts).children = ts ∧ (join ts).paramLists = [] ∧ (2 ≤ ts.length → (join ts).NodeRead scope))
    (hitem : Takes E scope L false n item) :
    Takes E scope L false n (do return joined join (← separatedBy m item)) := by
  intro c hn
  refine (takes_separatedBy (fun _ _ hk => .plain (by rw [hk, hm])) hitem hn).bind fun ts w c₁ hw hts => .pure ?_
  rw [List.append_nil]
  exact good_joined hjoin hts

theorem takes_typeExpr_optionalType (hE : ∀ name e, scope.resolve name = .error e → E e)
    (hL : ∀ fuel, Lists L (typeExpr scope fuel)) (fuel : Nat) :
    (∀ n, 2 * n + 2 ≤ fuel → Takes E scope L false n (typeExpr scope fuel)) ∧
      ∀ n, 2 * n + 1 ≤ fuel → Takes E scope L false n (optionalType scope fuel) := by
  induction fuel with
  | zero => exact ⟨fun n hn => by omega, fun n hn => by omega⟩
  | succ fuel ih =>
    constructor
    · intro n hfuel
      rw [typeExpr]
      exact takes_joined rfl (fun _ => ⟨rfl, rfl, id⟩) (takes_joined rfl (fun _ => ⟨rfl, rfl, id⟩) (ih.2 n (by omega)))
    · intro n hfuel c hn
      rw [optionalType]
      refine (takes_primary hE (hL fuel) (fun m hm => ih.1 m (by omega)) (fun m hm => ih.2 m (by omega)) hn).bind
        fun t w c₁ hw ht => .get ?_
      refine (takes_questionMarks (L := L) _ (Nat.lt_succ_self _) t).mono fun w' rest t' hw' hmarks => hmarks w ?_
      rw [← hw']
      exact ht

theorem takes_nestedType (hE : ∀ name e, scope.resolve name = .error e → E e)
    (hL : ∀ fuel, Lists L (typeExpr scope fuel)) (n : Nat) : Takes E scope L false n (nestedType scope) :=
  fun c _ => .get ((takes_typeExpr_optionalType hE hL _).1 c.tokens.length le_rfl c le_rfl)

/-! ## Type variables -/

/-- What is known of the type variables of a signature. -/
def NamesRead (names : List String) : Prop := (∀ n ∈ names, Text.isName n = true) ∧ names.Nodup

theorem NamesRead.append {names : List String} {name : String} (h : NamesRead names) (hname : Text.isName name = true)
    (hnew : name ∉ names) : NamesRead (names ++ [name]) :=
  ⟨List.forall_mem_append.2 ⟨h.1, List.forall_mem_singleton.2 hname⟩,
    (List.perm_append_singleton name names).nodup_iff.2 (List.nodup_cons.2 ⟨hnew, h.2⟩)⟩

theorem takes_typeParamNames (fuel : Nat) (hfuel : c.tokens.length < fuel) (names : List String) :
    RunsAt E c (typeParamNames names fuel) fun w _ names' => (∀ t ∈ w, t.kind = .identifier ∨ t.kind = .mark .comma) ∧
      ((∀ t ∈ w, t.Faithful) → NamesRead names → NamesRead names') := by
  induction fuel generalizing c names with
  | zero => omega
  | succ fuel ih =>
    refine .expectIdentifier fun t c₁ ht hk => .ite (fun _ => .fail _) fun hnew => ?_
    have hlength := length_le (w := [t]) ht le_rfl
    rw [List.length_singleton] at hlength
    have hlonger : t.Faithful → NamesRead names → NamesRead (names ++ [t.lexeme]) :=
      fun hfaithful h => h.append (hfaithful.isName_lexeme hk) (by simpa using hnew)
    refine .acceptIte (fun t' c₂ ht' hk' => ?_) fun _ =>
      .pure ⟨by simpa using .inl hk, fun hall => hlonger (by simpa using hall)⟩
    have hlength' := length_le (w := [t']) ht' le_rfl
    refine (ih (by omega) _).mono fun w rest _ hw ⟨hkinds, hnames⟩ => ⟨?_, fun hall h => ?_⟩
    · exact List.forall_mem_cons.2 ⟨.inl hk, List.forall_mem_cons.2 ⟨.inr hk', hkinds⟩⟩
    · obtain ⟨hfirst, hall⟩ := List.forall_mem_cons.1 hall
      exact hnames (List.forall_mem_cons.1 hall).2 (hlonger hfirst h)

/-- The tokens of a signature after its type variables. -/
def afterTypeParams : List Token → List Token
  | [] => []
  | t :: ts => if t.kind = .mark .lbracket then (ts.dropWhile (·.kind != .mark .rbracket)).tail else t :: ts

theorem takes_typeParams : RunsAt E c typeParams fun w rest names =>
    (∀ (scope : Scope ε) L, Good scope L false w rest []) ∧ afterTypeParams (w ++ rest) = rest ∧
      ((∀ t ∈ w, t.Faithful) → NamesRead names) := by
  refine .acceptIte (fun o c₁ ho hopen => .get ?_) fun hno => .pure ⟨fun _ _ => .nil, ?_, fun _ => ⟨by simp, .nil⟩⟩
  · refine (takes_typeParamNames _ (Nat.lt_succ_self _) []).bind fun names w c₂ hw hinner => ?_
    obtain ⟨hnames, hread⟩ := hinner
    refine .expect fun e c₃ he hclose => .pure ⟨fun scope L => ?_, ?_, fun hall => ?_⟩
    · have hinner : Good scope L true w (e :: c₃.tokens) [] := by
        clear hw hread
        induction w with
        | nil => exact .nil
        | cons t w ih =>
          have hfirst : Good scope L true [t] (w ++ e :: c₃.tokens) [] := by
            rcases hnames t List.mem_cons_self with hk | hk
            · exact .plain (by rw [hk]; rfl)
            · exact good_comma hk
          exact hfirst.append (ih fun t ht => hnames t (List.mem_cons_of_mem _ ht))
      exact hinner.enclosed (by rw [hopen]; rfl) (by rw [hopen]; rfl) (by rw [hclose]; rfl)
    · have hskip : ∀ t ∈ w, (t.kind != .mark .rbracket) = true := by
        intro t ht
        rcases hnames t ht with hk | hk <;> rw [hk] <;> rfl
      have htokens : o :: (w ++ [e]) ++ c₃.tokens = o :: (w ++ e :: c₃.tokens) := by simp
      rw [htokens, afterTypeParams, if_pos hopen, List.dropWhile_append_of_pos hskip]
      simp [hclose]
    · exact hread (fun t ht => hall t (by simp [ht])) ⟨by simp, .nil⟩
  · rw [List.nil_append]
    cases htokens : c.tokens with
    | nil => rfl
    | cons t ts =>
      rw [afterTypeParams, if_neg]
      intro hk
      rw [Cursor.atMark, Cursor.kind_eq, Cursor.token, htokens] at hno
      simp [hk] at hno

/-! ## Whole texts -/

theorem takes_expectEnd : RunsAt E c expectEnd fun w rest _ => w = [] ∧ ∀ t ∈ rest.head?, t.kind = .endOfText := by
  refine .get (.ite (fun hend => .pure ⟨rfl, fun t ht => ?_⟩) fun _ => .fail _)
  rw [beq_iff_eq, Cursor.kind_eq, Cursor.token, Option.mem_def.1 ht] at hend
  exact hend

theorem takes_wholeType (hE : ∀ name e, scope.resolve name = .error e → E e)
    (hL : ∀ fuel, Lists L (typeExpr scope fuel)) (c : Cursor) :
    RunsAt E c (wholeType scope) fun w rest t => Good scope L false w rest [t] := by
  refine (takes_nestedType hE hL _ c le_rfl).bind fun t w c₁ hw ht => takes_expectEnd.bind fun _ w' c₂ hw' ⟨hnil, _⟩ => ?_
  subst hnil
  rw [List.nil_append] at hw'
  rw [hw'] at ht
  exact .pure (by simpa using ht)

/-- How a signature stands in its text, and what is known of it. -/
structure SignatureAt (L : List String → List Token → Params TypeExpr → Prop)
    (resolve : String → Except ε (List (Capability TypeExpr))) (text : String) (w rest : List Token) (s : Signature) :
    Prop where
  types : Good ⟨s.typeParams, resolve⟩ (L s.typeParams) false w rest s.types
  params : ListRead (L s.typeParams) (afterTypeParams (w ++ rest)) s.params
  block : ∀ b ∈ s.block, ListedIn (L s.typeParams) w rest b.params
  ends : ∀ t ∈ rest.head?, t.kind = .endOfText
  text_eq : s.text = text
  read : (∀ t ∈ w, t.Faithful) → s.Read resolve

theorem takes_wholeSignature {L : List String → List Token → Params TypeExpr → Prop}
    {resolve : String → Except ε (List (Capability TypeExpr))} (hE : ∀ name e, resolve name = .error e → E e)
    (hfuel : ∀ names fuel, Lists (L names) (typeExpr ⟨names, resolve⟩ fuel))
    (hL : ∀ names, Lists (L names) (nestedType ⟨names, resolve⟩)) (text : String) (c : Cursor) :
    RunsAt E c (wholeSignature resolve text) (SignatureAt L resolve text) := by
  refine takes_typeParams.bind fun names w₀ c₀ hw₀ ⟨hnames, hafter, hread₀⟩ => ?_
  have hnested : ∀ n, Takes E ⟨names, resolve⟩ (L names) false n (nestedType ⟨names, resolve⟩) :=
    takes_nestedType hE (hfuel names)
  refine (takes_optionalParams (hL names) (hnested _) le_rfl).bind fun ps w₁ c₁ hw₁ ⟨hps, hread, hshaped⟩ => ?_
  refine (takes_optionalBlock (hL names) (hnested _) le_rfl).bind fun b w₂ c₂ hw₂ ⟨hb, hblock⟩ =>
    .expect fun t c₃ ht hk => ?_
  refine (hnested _ c₃ le_rfl).bind fun r w₃ c₄ hw₃ hr => takes_expectEnd.bind fun _ w₄ c₅ hw₄ ⟨hnil, hend⟩ => .pure ?_
  subst hnil
  rw [List.nil_append] at hw₄
  rw [hw₄] at hw₃ hr
  have hresult : Good ⟨names, resolve⟩ (L names) false ([t] ++ w₃) c₅.tokens [r] :=
    (Good.plain (by rw [hk]; rfl)).append hr
  have hrest₂ : c₂.tokens = [t] ++ w₃ ++ c₅.tokens := by rw [ht, hw₃]; rfl
  have hrest₁ : c₁.tokens = w₂ ++ ([t] ++ w₃) ++ c₅.tokens := by rw [hw₂, hrest₂, List.append_assoc w₂]
  have hrest₀ : c₀.tokens = w₁ ++ (w₂ ++ ([t] ++ w₃)) ++ c₅.tokens := by rw [hw₁, hrest₁, List.append_assoc w₁]
  rw [hrest₂] at hb hblock
  rw [hrest₁] at hps
  have htokens : w₀ ++ (w₁ ++ (w₂ ++ t :: (w₃ ++ ([] ++ [])))) = w₀ ++ (w₁ ++ (w₂ ++ ([t] ++ w₃))) := by simp
  rw [htokens]
  refine ⟨?_, ?_, fun b' hb' => (hblock b' hb').1.left.right.right, hend, rfl, fun hall => ?_⟩
  · have hfirst := hnames ⟨names, resolve⟩ (L names)
    rw [hrest₀] at hfirst
    refine (hfirst.append (hps.append (hb.append hresult))).types fun u hu => ?_
    simpa [Signature.types] using hu
  · rw [List.append_assoc, ← hrest₀, hafter, hw₁]
    exact hread
  · obtain ⟨hall₀, hall⟩ := List.forall_mem_append.1 hall
    obtain ⟨hall₁, hall⟩ := List.forall_mem_append.1 hall
    obtain ⟨hall₂, hall₃⟩ := List.forall_mem_append.1 hall
    refine ⟨(hread₀ hall₀).1, (hread₀ hall₀).2, (hshaped hall₁).of_types (hps.read hall₁), ?_,
      hresult.read hall₃ r (List.mem_singleton_self r)⟩
    rintro b' ⟨⟩
    have htypes := hb.read hall₂
    refine ⟨((hblock b' rfl).2 hall₂).of_types fun u hu => htypes u (List.mem_append_left _ hu), ?_⟩
    exact htypes _ (List.mem_append_right _ (List.mem_singleton_self _))

end Parser

namespace Registry

variable {text : String} {resolve : Resolve}

theorem readWith_run {parser : Parser Fault α} {a : α} (h : (readWith text parser).result = .ok a) :
    ∃ stream c, Token.tokenize text = .ok stream ∧ stream.diagnostics = [] ∧
      parser.run ⟨stream.tokens, []⟩ = .ok (a, c) := by
  unfold readWith at h
  split at h
  · cases h
  · rename_i stream hstream
    split at h
    · rename_i hclean
      split at h
      · rename_i node c hrun
        cases h
        exact ⟨stream, c, hstream, List.isEmpty_iff.1 hclean, hrun⟩
      · cases h
    · cases h

/-- What was read from a text was taken from its tokens. -/
theorem readWith_ok {E : Fault → Prop} {parser : Parser Fault α} {a : α} (hparser : ∀ c, Parser.RunsAt E c parser Q)
    (h : (readWith text parser).result = .ok a) :
    ∃ stream w rest, Token.tokenize text = .ok stream ∧ stream.tokens = w ++ rest ∧ (∀ t ∈ w, t.Faithful) ∧ Q w rest a := by
  obtain ⟨stream, c, hstream, -, hrun⟩ := readWith_run h
  obtain ⟨w, hw, hQ⟩ := (hparser _).takes _ _ hrun
  refine ⟨stream, w, c.tokens, hstream, hw.1, fun t ht => (Token.tokenize_cut hstream).faithful t ?_, hQ⟩
  rw [show stream.tokens = w ++ c.tokens from hw.1]
  exact List.mem_append_left _ ht

/-- A text that cannot be read is malformed, or an interface could not be looked up.  If all of its characters belong to
tokens, there is one diagnostic, at one of the tokens. -/
theorem readWith_error {E : Fault → Prop} {parser : Parser Fault α} {stream : Token.Stream} {fault : Fault}
    (hparser : ∀ c, Parser.RunsAt E c parser Q) (hlex : Token.tokenize text = .ok stream)
    (h : (readWith text parser).result = .error fault) : E fault ∨ ∃ ds, fault = .malformed text ds ∧
      (stream.diagnostics = [] → ∃ d, ds = [d] ∧ ∃ t ∈ stream.tokens, d.span = some t.span) := by
  unfold readWith at h
  rw [hlex] at h
  dsimp only at h
  split at h
  · cases hrun : parser.run ⟨stream.tokens, []⟩ with
    | ok r =>
      rw [hrun] at h
      cases h
    | error halt =>
      rw [hrun] at h
      obtain ⟨w, c, hw, hfair⟩ := (hparser _).fed halt hrun
      obtain ⟨reason, mentions⟩ := halt
      cases reason with
      | malformed message span =>
        cases h
        obtain ⟨ts, last, htokens, hlast, -⟩ := ((Token.tokenize_cut hlex).located rfl).final
        exact .inr ⟨_, rfl, fun _ => ⟨_, rfl, c.token, hw.token_mem htokens hlast, congrArg some hfair⟩⟩
      | lookup e =>
        cases h
        exact .inl hfair
      | exhausted => exact hfair.elim
  · cases h
    rename_i hdirty
    exact .inr ⟨_, rfl, fun hclean => absurd (by simp [hclean]) hdirty⟩

/-- A type expression that was read from a text. -/
theorem readType_read {typeParams : List String} {t : TypeExpr}
    (h : (readType resolve typeParams text).result = .ok t) : t.Read ⟨typeParams, resolve⟩ := by
  obtain ⟨_, w, rest, -, -, hw, hgood⟩ := readWith_ok (Parser.takes_wholeType (E := fun _ => True)
    (L := fun _ _ => True) (fun _ _ _ => trivial) fun _ _ _ _ _ _ _ _ => trivial) h
  exact hgood.read hw t (List.mem_singleton_self t)

theorem readSignature_at {s : Signature} (h : (readSignature resolve text).result = .ok s) :
    s.text = text ∧ s.Read resolve := by
  obtain ⟨_, w, rest, -, -, hw, hs⟩ := readWith_ok (Parser.takes_wholeSignature (E := fun _ => True)
    (L := fun _ _ _ => True) (fun _ _ _ => trivial) (fun _ _ _ _ _ _ _ _ _ => trivial)
    (fun _ _ _ _ _ _ _ _ => trivial) text) h
  exact ⟨hs.text_eq, hs.read hw⟩

/-- A signature that was read from a text. -/
theorem readSignature_read {s : Signature} (h : (readSignature resolve text).result = .ok s) : s.Read resolve :=
  (readSignature_at h).2

end Registry

end Conformance
