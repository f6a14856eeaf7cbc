import Mathlib
import Conformance.Proofs.Congruence
import Conformance.Proofs.ParameterForms

/-!
# What readers take

A reader takes tokens from the left, and what it takes is balanced: brackets are closed by the reader that opened them,
and commas stand in brackets only (`Closed`).

`RunsAt` says of a reader what it takes from where it stands, and that it does not run out of fuel.  It composes along
the combinators, and the readers of parameter lists are gone through one by one with it.  What is kept track of is `Good`:
the tokens are balanced, the parameter lists that are opened in them are read as such, and the types that were read have
no other parameter lists than those.  Every type takes tokens, and what is known of its nodes goes by what they spell.
-/

namespace Conformance

variable {ps : Params TypeExpr} {t : Token}

/-! ## Parameter lists that are opened -/

/-- A parenthesis opens a parameter list, the announcing token before it is among the first tokens, and the rest of the
tokens come after it. -/
def OpensIn (w rest inner : List Token) : Prop :=
  ∃ before x more y, w = before ++ x :: more ∧ x.kind.announces = true ∧ more ++ rest = y :: inner ∧
    y.kind = .mark .lparen

theorem opensIn_append {w w' rest inner : List Token} :
    OpensIn (w ++ w') rest inner ↔ OpensIn w (w' ++ rest) inner ∨ OpensIn w' rest inner := by
  constructor
  · rintro ⟨before, x, more, y, hw, hx, hmore, hy⟩
    rcases List.append_eq_append_iff.1 hw with ⟨a, rfl, rfl⟩ | ⟨a, rfl, ha⟩
    · exact .inr ⟨a, x, more, y, rfl, hx, hmore, hy⟩
    · cases a with
      | nil =>
        rw [List.nil_append] at ha
        exact .inr ⟨[], x, more, y, ha.symm, hx, hmore, hy⟩
      | cons x' a =>
        obtain ⟨rfl, rfl⟩ := List.cons.inj ha
        exact .inl ⟨before, x, a, y, rfl, hx, by rw [← List.append_assoc]; exact hmore, hy⟩
  · rintro (⟨before, x, more, y, rfl, hx, hmore, hy⟩ | ⟨before, x, more, y, rfl, hx, hmore, hy⟩)
    · exact ⟨before, x, more ++ w', y, by simp, hx, by rw [List.append_assoc]; exact hmore, hy⟩
    · exact ⟨w ++ before, x, more, y, by simp, hx, hmore, hy⟩

/-- The parameter lists of a node: those of a proc and of its block. -/
def TypeExpr.paramLists : TypeExpr → List (Params TypeExpr)
  | .proc params _ block => params :: (block.toList.map (·.params))
  | _ => []

section Good

variable {ε : Type} (scope : Parser.Scope ε) (L : List Token → Params TypeExpr → Prop)

/-- The parameter list is empty, or was read from one that is opened among the tokens. -/
def ListedIn (w rest : List Token) (ps : Params TypeExpr) : Prop := ps = {} ∨ ∃ inner, OpensIn w rest inner ∧ L inner ps

/-- Balanced tokens in which all parameter lists are read, and types whose parameter lists stand in them.  There are no
types without tokens, and all is known of them that is known of types that were read, if the tokens spell what they
mean. -/
structure Good (commas : Bool) (w rest : List Token) (ts : List TypeExpr) : Prop where
  closed : Closed commas w
  lists : ∀ inner, OpensIn w rest inner → ∃ ps, L inner ps
  built : ∀ t ∈ ts, t.Everywhere fun u => ∀ ps ∈ u.paramLists, ListedIn L w rest ps
  spent : ∀ t ∈ ts, w ≠ []
  read : (∀ x ∈ w, x.Faithful) → ∀ t ∈ ts, t.Read scope

variable {scope L} {commas : Bool} {w w' rest : List Token} {ts ts' : List TypeExpr}

theorem ListedIn.left (h : ListedIn L w (w' ++ rest) ps) : ListedIn L (w ++ w') rest ps :=
  h.imp_right fun ⟨inner, hopens, hread⟩ => ⟨inner, opensIn_append.2 (.inl hopens), hread⟩

theorem ListedIn.right (h : ListedIn L w' rest ps) : ListedIn L (w ++ w') rest ps :=
  h.imp_right fun ⟨inner, hopens, hread⟩ => ⟨inner, opensIn_append.2 (.inr hopens), hread⟩

namespace Good

theorem append (h : Good scope L commas w (w' ++ rest) ts) (h' : Good scope L commas w' rest ts') :
    Good scope L commas (w ++ w') rest (ts ++ ts') where
  closed := h.closed.append h'.closed
  lists inner hopens := (opensIn_append.1 hopens).elim (h.lists inner) (h'.lists inner)
  built t ht := by
    rcases List.mem_append.1 ht with ht | ht
    · exact fun u hu ps hps => (h.built t ht u hu ps hps).left
    · exact fun u hu ps hps => (h'.built t ht u hu ps hps).right
  spent t ht hnil := by
    obtain ⟨hw, hw'⟩ := List.append_eq_nil_iff.1 hnil
    exact (List.mem_append.1 ht).elim (fun ht => h.spent t ht hw) fun ht => h'.spent t ht hw'
  read hw t ht := by
    obtain ⟨hw, hw'⟩ := List.forall_mem_append.1 hw
    exact (List.mem_append.1 ht).elim (h.read hw t) (h'.read hw' t)

theorem types (h : Good scope L commas w rest ts) (hts : ∀ t ∈ ts', t ∈ ts) : Good scope L commas w rest ts' where
  closed := h.closed
  lists := h.lists
  built t ht := h.built t (hts t ht)
  spent t ht := h.spent t (hts t ht)
  read hw t ht := h.read hw t (hts t ht)

theorem loosen (h : Good scope L commas w rest ts) : Good scope L true w rest ts := { h with closed := h.closed.loosen }

theorem nil : Good scope L commas [] rest [] where
  closed := .nil
  lists inner hopens := by
    obtain ⟨before, x, more, y, hw, -⟩ := hopens
    simp at hw
  built t ht := by cases ht
  spent t ht := by cases ht
  read _ t ht := by cases ht

/-- A token that announces no parameter list, or one that is read. -/
theorem token (hclosed : Closed commas [t])
    (hlist : t.kind.announces = true → ∀ y inner, rest = y :: inner → y.kind = .mark .lparen → ∃ ps, L inner ps) :
    Good scope L commas [t] rest [] where
  closed := hclosed
  lists inner hopens := by
    obtain ⟨before, x, more, y, hw, hx, hmore, hy⟩ := hopens
    cases before with
    | nil =>
      obtain ⟨rfl, rfl⟩ := List.cons.inj hw
      exact hlist hx y inner hmore hy
    | cons _ before => simp at hw
  built t ht := by cases ht
  spent t ht := by cases ht
  read _ t ht := by cases ht

/-- A token that is no bracket, comma or caret. -/
theorem plain (h : t.kind.structural = false) : Good scope L commas [t] rest [] := by
  obtain ⟨hopens, hcloses, hcomma, hannounces⟩ := TokenKind.of_structural h
  refine token (.token hopens hcloses fun hk => absurd hk hcomma) fun hk => ?_
  rw [hannounces] at hk
  cases hk

theorem plains (h : ∀ t ∈ w, t.kind.structural = false) : Good scope L commas w rest [] := by
  induction w with
  | nil => exact .nil
  | cons t w ih => exact (plain (h t List.mem_cons_self)).append (ih fun t ht => h t (List.mem_cons_of_mem _ ht))

/-- Brackets around tokens. -/
theorem group {o c : Token} (h : Good scope L true w (c :: rest) ts) (ho : o.kind.opens = true) (hc : c.kind.closes = true)
    (hlist : o.kind.announces = true → ∀ y inner, w ++ c :: rest = y :: inner → y.kind = .mark .lparen →
      ∃ ps, L inner ps) : Good scope L commas (o :: (w ++ [c])) rest ts where
  closed := .group ho hc h.closed
  lists inner hopens := by
    have hsplit : o :: (w ++ [c]) = [o] ++ (w ++ [c]) := rfl
    rw [hsplit, opensIn_append, opensIn_append, List.append_assoc] at hopens
    rcases hopens with ⟨before, x, more, y, hw, hx, hmore, hy⟩ | hopens | ⟨before, x, more, y, hw, hx, hmore, hy⟩
    · cases before with
      | nil =>
        obtain ⟨rfl, rfl⟩ := List.cons.inj hw
        exact hlist hx y inner hmore hy
      | cons _ before => simp at hw
    · exact h.lists inner hopens
    · cases before with
      | nil =>
        obtain ⟨rfl, rfl⟩ := List.cons.inj hw
        rw [TokenKind.announces_of_closes hc] at hx
        cases hx
      | cons _ before => simp at hw
  built t ht u hu ps hps := (h.built t ht u hu ps hps).left.right (w := [o])
  spent _ _ := List.cons_ne_nil _ _
  read hw := h.read fun x hx => hw x (List.mem_cons_of_mem o (List.mem_append_left [c] hx))

/-- Brackets around tokens that cannot be a parameter list. -/
theorem enclosed {o c : Token} (h : Good scope L true w (c :: rest) ts) (ho : o.kind.opens = true)
    (hquiet : o.kind.announces = false) (hc : c.kind.closes = true) : Good scope L commas (o :: (w ++ [c])) rest ts :=
  h.group ho hc fun hk => by rw [hquiet] at hk; cases hk

/-- A node of types that were read. -/
theorem node {t : TypeExpr} (h : Good scope L commas w rest ts) (hw : w ≠ []) (hchildren : ∀ u ∈ t.children, u ∈ ts)
    (hlists : ∀ ps ∈ t.paramLists, ListedIn L w rest ps) (hnode : (∀ x ∈ w, x.Faithful) → t.NodeRead scope) :
    Good scope L commas w rest [t] where
  closed := h.closed
  lists := h.lists
  built t' ht' := by
    rw [List.mem_singleton] at ht'
    subst ht'
    exact TypeExpr.everywhere_iff.2 ⟨hlists, fun u hu => h.built u (hchildren u hu)⟩
  spent _ _ := hw
  read hw t' ht' := by
    rw [List.mem_singleton] at ht'
    subst ht'
    exact TypeExpr.everywhere_iff.2 ⟨hnode hw, fun u hu => h.read hw u (hchildren u hu)⟩

end Good

end Good

namespace Parser

variable {ε α β : Type} {c c' : Cursor} {m : Mark}

/-! ## What a reader does where it stands -/

/-- The fuel did not run out, a lookup that failed gave one of these errors, and it is the next token that breaks the
grammar. -/
def Reason.Fair (E : ε → Prop) (c : Cursor) : Reason ε → Prop
  | .malformed _ span => span = c.token.span
  | .lookup e => E e
  | .exhausted => False

/-- The cursor is moved past these tokens, and not past the end of the text. -/
def Cursor.Moves (c : Cursor) (w : List Token) (c' : Cursor) : Prop :=
  c.tokens = w ++ c'.tokens ∧ ∀ t ∈ w, t.kind ≠ .endOfText

theorem Cursor.Moves.trans {c'' : Cursor} {w w' : List Token} (h : c.Moves w c') (h' : c'.Moves w' c'') :
    c.Moves (w ++ w') c'' :=
  ⟨by rw [h.1, h'.1, List.append_assoc], List.forall_mem_append.2 ⟨h.2, h'.2⟩⟩

/-- The end is not among the tokens that are passed. -/
theorem Cursor.Moves.within {w ts : List Token} {last : Token} (h : c.Moves w c') (htokens : c.tokens = ts ++ [last])
    (hlast : last.kind = .endOfText) : ∃ rest, ts = w ++ rest ∧ c'.tokens = rest ++ [last] := by
  obtain ⟨hw, hends⟩ := h
  rcases List.append_eq_append_iff.1 (htokens.symm.trans hw) with ⟨more, rfl, hmore⟩ | ⟨rest, rfl, hrest⟩
  · cases more with
    | nil => exact ⟨[], by simp, hmore.symm⟩
    | cons t more =>
      obtain ⟨rfl, -⟩ := List.cons.inj hmore
      exact absurd hlast (hends last (by simp))
  · exact ⟨rest, rfl, hrest⟩

theorem Cursor.Moves.token_mem {w ts : List Token} {last : Token} (h : c.Moves w c')
    (htokens : c.tokens = ts ++ [last]) (hlast : last.kind = .endOfText) : c'.token ∈ c.tokens := by
  obtain ⟨rest, -, hrest⟩ := h.within htokens hlast
  rw [h.1, Cursor.token, hrest]
  cases rest <;> simp

/-- The reader takes tokens that have, with those left and with what it gives, the property; and it stops fairly. -/
structure RunsAt (E : ε → Prop) (c : Cursor) (p : Parser ε α) (Q : List Token → List Token → α → Prop) : Prop where
  takes : ∀ a c', p.run c = .ok (a, c') → ∃ w, c.Moves w c' ∧ Q w c'.tokens a
  fed : ∀ h, p.run c = .error h → ∃ w c', c.Moves w c' ∧ h.reason.Fair E c'

variable {E : ε → Prop} {Q : List Token → List Token → α → Prop} {R : List Token → List Token → β → Prop}

namespace RunsAt

variable {p : Parser ε α} {message : String}

theorem bind {f : α → Parser ε β} (hp : RunsAt E c p Q)
    (hf : ∀ a w c', c.tokens = w ++ c'.tokens → Q w c'.tokens a → RunsAt E c' (f a) fun w' => R (w ++ w')) :
    RunsAt E c (p >>= f) R := by
  cases hrun : p.run c with
  | error h =>
    have hstop : (p >>= f).run c = .error h := run_bind_of_error hrun
    refine ⟨fun a c' hr => ?_, fun h' hr => ?_⟩
    · rw [hstop] at hr
      cases hr
    · rw [hstop] at hr
      cases hr
      exact hp.fed h hrun
  | ok r =>
    obtain ⟨a, c₁⟩ := r
    obtain ⟨w, hw, hQ⟩ := hp.takes a c₁ hrun
    have hgo : (p >>= f).run c = (f a).run c₁ := run_bind_of_ok hrun
    have hnext := hf a w c₁ hw.1 hQ
    refine ⟨fun b c' hr => ?_, fun h hr => ?_⟩
    · obtain ⟨w', hw', hR⟩ := hnext.takes b c' (hgo ▸ hr)
      exact ⟨w ++ w', hw.trans hw', hR⟩
    · obtain ⟨w', c', hw', hfair⟩ := hnext.fed h (hgo ▸ hr)
      exact ⟨w ++ w', c', hw.trans hw', hfair⟩

theorem pure {a : α} (h : Q [] c.tokens a) : RunsAt E c (Pure.pure a : Parser ε α) Q := by
  refine ⟨fun a' c' hr => ?_, fun h hr => by cases hr⟩
  cases hr
  exact ⟨[], ⟨rfl, by simp⟩, h⟩

theorem fail (message : String) : RunsAt E c (Parser.fail message : Parser ε α) Q := by
  refine ⟨fun a' c' hr => ?_, fun h hr => ?_⟩
  · cases hr
  · cases hr
    exact ⟨[], c, ⟨rfl, by simp⟩, rfl⟩

theorem failBind {f : α → Parser ε β} : RunsAt E c (Parser.fail message >>= f) R :=
  (fail message (Q := fun _ _ _ => False)).bind fun _ _ _ _ hno => hno.elim

theorem mono {Q' : List Token → List Token → α → Prop} (hp : RunsAt E c p Q)
    (h : ∀ w rest a, c.tokens = w ++ rest → Q w rest a → Q' w rest a) : RunsAt E c p Q' := by
  refine ⟨fun a c' hr => ?_, hp.fed⟩
  obtain ⟨w, hw, hQ⟩ := hp.takes a c' hr
  exact ⟨w, hw, h _ _ _ hw.1 hQ⟩

theorem ite {b : Prop} [Decidable b] {q : Parser ε α} (hp : b → RunsAt E c p Q) (hq : ¬ b → RunsAt E c q Q) :
    RunsAt E c (if b then p else q) Q := by
  split
  · exact hp ‹_›
  · exact hq ‹_›

/-- Looking ahead takes nothing. -/
theorem get {f : Cursor → Parser ε α} (h : RunsAt E c (f c) Q) : RunsAt E c (MonadState.get >>= f) Q := ⟨h.takes, h.fed⟩

/-! ## Single tokens -/

theorem exists_token (h : c.kind ≠ .endOfText) : ∃ t ts, c.tokens = t :: ts ∧ c.token = t ∧ c.kind = t.kind ∧
    c.next.tokens = ts := by
  cases htokens : c.tokens with
  | nil =>
    rw [Cursor.kind_eq, Cursor.token, htokens] at h
    exact absurd rfl h
  | cons t ts =>
    have htoken : c.token = t := by rw [Cursor.token, htokens]; rfl
    refine ⟨t, ts, rfl, htoken, by rw [Cursor.kind_eq, htoken], ?_⟩
    rw [Cursor.next_eq h, htokens]
    rfl

theorem advance {f : Token → Parser ε α} (hne : c.kind ≠ .endOfText)
    (h : ∀ t c', c.tokens = t :: c'.tokens → c.kind = t.kind → c.token = t → RunsAt E c' (f t) fun w => Q (t :: w)) :
    RunsAt E c (Parser.advance >>= f) Q := by
  obtain ⟨t, ts, htokens, htoken, hkind, hnext⟩ := exists_token hne
  have hgo : (Parser.advance >>= f).run c = (f t).run c.next := htoken ▸ run_bind_of_ok (run_advance hne)
  have hrest := h t c.next (by rw [htokens, hnext]) hkind htoken
  have hmoves : c.Moves [t] c.next := ⟨by rw [htokens, hnext]; rfl, by simpa [← hkind] using hne⟩
  refine ⟨fun a c' hr => ?_, fun h hr => ?_⟩
  · obtain ⟨w, hw, hQ⟩ := hrest.takes a c' (hgo ▸ hr)
    exact ⟨t :: w, hmoves.trans hw, hQ⟩
  · obtain ⟨w, c', hw, hfair⟩ := hrest.fed h (hgo ▸ hr)
    exact ⟨t :: w, c', hmoves.trans hw, hfair⟩

theorem accept {f : Bool → Parser ε α}
    (hyes : ∀ t c', c.tokens = t :: c'.tokens → t.kind = .mark m → RunsAt E c' (f true) fun w => Q (t :: w))
    (hno : c.atMark m = false → RunsAt E c (f false) Q) : RunsAt E c (Parser.accept m >>= f) Q := by
  by_cases hm : c.atMark m = true
  · have hkind : c.kind = .mark m := by simpa [Cursor.atMark] using hm
    have hne : c.kind ≠ .endOfText := by
      rw [hkind]
      rintro ⟨⟩
    have hgo : (Parser.accept m >>= f).run c = (Parser.advance >>= fun _ => f true).run c := by
      rw [run_bind_of_ok (run_advance hne)]
      exact run_bind_of_ok (if_pos hm)
    have hrest : RunsAt E c (Parser.advance >>= fun _ => f true : Parser ε α) Q :=
      advance hne fun t c' htokens ht _ => hyes t c' htokens (ht.symm.trans hkind)
    exact ⟨fun a c' hr => hrest.takes a c' (hgo ▸ hr), fun h hr => hrest.fed h (hgo ▸ hr)⟩
  · have hgo : (Parser.accept m >>= f).run c = (f false).run c := run_bind_of_ok (if_neg hm)
    have hrest := hno (by simpa using hm)
    exact ⟨fun a c' hr => hrest.takes a c' (hgo ▸ hr), fun h hr => hrest.fed h (hgo ▸ hr)⟩

theorem expect {f : Unit → Parser ε α}
    (h : ∀ t c', c.tokens = t :: c'.tokens → t.kind = .mark m → RunsAt E c' (f ()) fun w => Q (t :: w)) :
    RunsAt E c (Parser.expect m message >>= f) Q := by
  have hassoc : (Parser.expect m message >>= f) =
      (Parser.accept m >>= fun b => (if (!b) = true then Parser.fail message else Pure.pure ()) >>= f) := by
    rw [Parser.expect, bind_assoc]
  rw [hassoc]
  refine accept (fun t c' htokens ht => ?_) fun _ => ?_
  · have hrest := h t c' htokens ht
    exact ⟨hrest.takes, hrest.fed⟩
  · exact failBind

/-- A mark that may be next. -/
theorem acceptIte {q : Parser ε α}
    (hyes : ∀ t c', c.tokens = t :: c'.tokens → t.kind = .mark m → RunsAt E c' p fun w => Q (t :: w))
    (hno : c.atMark m = false → RunsAt E c q Q) :
    RunsAt E c (Parser.accept m >>= fun b => if b = true then p else q) Q :=
  accept (fun t c' htokens ht => by rw [if_pos rfl]; exact hyes t c' htokens ht)
    fun hm => by rw [if_neg Bool.false_ne_true]; exact hno hm

theorem expectIdentifier {f : String → Parser ε α}
    (h : ∀ t c', c.tokens = t :: c'.tokens → t.kind = .identifier → RunsAt E c' (f t.lexeme) fun w => Q (t :: w)) :
    RunsAt E c (Parser.expectIdentifier message >>= f) Q := by
  have hassoc : (Parser.expectIdentifier message >>= f) =
      (MonadState.get >>= fun c : Cursor => (if (c.kind == .identifier) = true then Parser.advance >>= fun t => Pure.pure t.lexeme
        else Parser.fail message) >>= f) := by
    rw [Parser.expectIdentifier, bind_assoc]
  rw [hassoc]
  refine get ?_
  split
  · rename_i hk
    rw [bind_assoc]
    have hkind : c.kind = .identifier := by simpa using hk
    refine advance (by rw [hkind]; rintro ⟨⟩) fun t c' htokens ht _ => ?_
    have hrest := h t c' htokens (ht.symm.trans hkind)
    exact ⟨hrest.takes, hrest.fed⟩
  · exact failBind

/-- What is taken and given is what the run says. -/
theorem recorded (h : RunsAt E c p Q) :
    RunsAt E c p fun w rest a => Q w rest a ∧ ∃ c', p.run c = .ok (a, c') ∧ c.tokens = w ++ c'.tokens := by
  refine ⟨fun a c' hr => ?_, h.fed⟩
  obtain ⟨w, hw, hQ⟩ := h.takes a c' hr
  exact ⟨w, hw, hQ, c', hr, hw.1⟩

end RunsAt

theorem length_le {w : List Token} {n : Nat} (h : c.tokens = w ++ c'.tokens) (hn : c.tokens.length ≤ n) :
    c'.tokens.length + w.length ≤ n := by
  rw [h, List.length_append] at hn
  omega

/-! ## Rows of types -/

variable {scope : Scope ε} {L : List Token → Params TypeExpr → Prop} {n : Nat} {nested result : Parser ε TypeExpr}

/-- The reader takes balanced tokens, where there are no more than so many. -/
def Takes (E : ε → Prop) (scope : Scope ε) (L : List Token → Params TypeExpr → Prop) (commas : Bool) (n : Nat)
    (p : Parser ε TypeExpr) : Prop :=
  ∀ c : Cursor, c.tokens.length ≤ n → RunsAt E c p fun w rest t => Good scope L commas w rest [t]

theorem takes_separated {commas : Bool} {item : Parser ε TypeExpr}
    (hm : ∀ t rest, t.kind = .mark m → Good scope L commas [t] rest []) (hitem : Takes E scope L commas n item)
    (fuel : Nat) (hn : c.tokens.length ≤ n) (hfuel : c.tokens.length < fuel) :
    RunsAt E c (separated m item fuel) fun w rest ts => Good scope L commas w rest ts ∧ ts ≠ [] := by
  induction fuel generalizing c with
  | zero => omega
  | succ fuel ih =>
    refine (hitem c hn).bind fun x w c₁ hw hx => .acceptIte (fun t c₂ ht hk => ?_) fun _ => .pure ?_
    · have hlength := length_le hw le_rfl
      have hlength' := length_le (w := [t]) ht le_rfl
      simp only [List.length_singleton] at hlength'
      refine (ih (by omega) (by omega)).bind fun xs w' c₃ hw' hxs => .pure ⟨?_, List.cons_ne_nil _ _⟩
      rw [ht] at hx
      rw [hw'] at hx
      have hrow := hx.append ((hm t _ hk).append hxs.1)
      simpa using hrow
    · simpa using hx

theorem takes_separatedBy {commas : Bool} {item : Parser ε TypeExpr}
    (hm : ∀ t rest, t.kind = .mark m → Good scope L commas [t] rest []) (hitem : Takes E scope L commas n item)
    (hn : c.tokens.length ≤ n) :
    RunsAt E c (separatedBy m item) fun w rest ts => Good scope L commas w rest ts ∧ ts ≠ [] :=
  .get (takes_separated hm hitem _ hn (Nat.lt_succ_self _))

theorem good_comma {rest : List Token} (h : t.kind = .mark .comma) : Good scope L true [t] rest [] := by
  refine .token (.token ?_ ?_ fun _ => rfl) fun hk => ?_
  · rw [h]
    rfl
  · rw [h]
    rfl
  · rw [h] at hk
    cases hk

/-! ## Parameter lists -/

/-- The tokens are read as a parameter. -/
def Spells (nested : Parser ε TypeExpr) (body : List Token) (q : Param TypeExpr) : Prop :=
  ∃ c c', (param nested).run c = .ok (q, c') ∧ c.tokens = body ++ c'.tokens

/-- The name is that of a word among the tokens. -/
def Worded (w : List Token) (name : String) : Prop := ∃ t ∈ w, t.isWord = true ∧ t.lexeme = name

theorem Worded.after {w : List Token} {name : String} (h : Worded w name) (before : List Token) :
    Worded (before ++ w) name := by
  obtain ⟨t, ht, hword⟩ := h
  exact ⟨t, List.mem_append_right before ht, hword⟩

theorem Worded.isWord {w : List Token} {name : String} (h : Worded w name) (hw : ∀ t ∈ w, t.Faithful) :
    Text.isWord name = true := by
  obtain ⟨t, ht, hword, rfl⟩ := h
  exact (hw t ht).isWord_lexeme hword

theorem structural_of_isWord (h : t.isWord = true) : t.kind.structural = false := by
  unfold Token.isWord at h
  split at h
  · rename_i hk
    rw [hk]
    rfl
  · rename_i k hk
    rw [hk]
    rfl
  · cases h

theorem kind_ne_of_isWord (h : c.token.isWord = true) : c.kind ≠ .endOfText := by
  intro hk
  rw [Cursor.kind_eq] at hk
  unfold Token.isWord at h
  rw [hk] at h
  cases h

/-- The tokens are those of a parameter, after what its form puts before the type. -/
structure ParamAt (scope : Scope ε) (L : List Token → Params TypeExpr → Prop) (nested : Parser ε TypeExpr)
    (w rest : List Token) (q : Param TypeExpr) : Prop where
  good : Good scope L false w rest [q.type]
  names : ∀ name ∈ q.name, Worded w name
  spells : Spells nested w q

theorem takes_param (hnested : Takes E scope L false n nested) (hn : c.tokens.length ≤ n) :
    RunsAt E c (param nested) (ParamAt scope L nested) := by
  have hgood : RunsAt E c (param nested) fun w rest q =>
      Good scope L false w rest [q.type] ∧ ∀ name ∈ q.name, Worded w name := by
    refine (hnested c hn).bind fun t w c₁ hw ht => .get (.ite (fun hword => ?_) fun _ => .pure ⟨?_, by simp⟩)
    · refine .advance (kind_ne_of_isWord hword) fun t' c₂ ht' _ htoken => .pure ?_
      rw [ht'] at ht
      rw [htoken] at hword
      refine ⟨by simpa using ht.append (.plain (structural_of_isWord hword)), ?_⟩
      rintro _ ⟨⟩
      exact ⟨t', by simp, hword, rfl⟩
    · simpa using ht
  exact hgood.recorded.mono fun w rest q _ ⟨hq, c', hrun, htokens⟩ => ⟨hq.1, hq.2, c, c', hrun, htokens⟩

theorem atKeyword_zero (c : Cursor) : c.atKeyword 0 = (Form.keywordName? c.tokens).isSome := by
  obtain ⟨tokens, mentions⟩ := c
  match tokens with
  | [] => rfl
  | [t] => simp [Cursor.atKeyword, Cursor.kind, Form.keywordName?]
  | word :: colon :: ts =>
    simp only [Cursor.atKeyword, Cursor.kind, Form.keywordName?, List.getElem?_cons_zero, Option.map_some,
      Option.getD_some, List.getElem?_cons_succ]
    split
    · rename_i h
      simpa using h
    · rename_i h
      simpa using h

theorem atKeyword_one {ts : List Token} (h : c.tokens = t :: ts) : c.atKeyword 1 = (Form.keywordName? ts).isSome := by
  rw [← atKeyword_zero ⟨ts, []⟩]
  simp [Cursor.atKeyword, Cursor.kind, h]

/-- Fewer tokens start with no name if more of them do not. -/
theorem keywordName?_append {w rest : List Token} (h : Form.keywordName? (w ++ rest) = none) :
    Form.keywordName? w = none := by
  match w with
  | [] => rfl
  | [_] => rfl
  | _ :: _ :: _ => exact h

/-- One parameter: its tokens are balanced, and it is read from those that its form leaves for the type. -/
def ItemAt (scope : Scope ε) (L : List Token → Params TypeExpr → Prop) (nested : Parser ε TypeExpr)
    (w rest : List Token) (e : Form × Param TypeExpr) : Prop :=
  Form.of w = e.1 ∧ Spells nested (w.drop e.1.size) e.2 ∧ Good scope L false w rest [e.2.type] ∧
    ∀ name ∈ e.2.name, Worded w name

theorem ItemAt.spelled {w rest : List Token} {e : Form × Param TypeExpr} (h : ItemAt scope L nested w rest e)
    (hw : ∀ t ∈ w, t.Faithful) : Params.Spelled e :=
  ⟨fun name hname => (h.2.2.2 name hname).isWord hw,
    fun _ _ hkeyword => Worded.isWord (Form.word_of_keyword (h.1.trans hkeyword)) hw⟩

theorem takes_keywordParam (hnested : Takes E scope L false n nested) (hn : c.tokens.length ≤ n) (acc : Params TypeExpr)
    (hkey : c.atKeyword 0 = true) : RunsAt E c (keywordParam nested acc) fun w rest kq => ∃ word colon body,
      w = word :: colon :: body ∧ word.isWord = true ∧ colon.kind = .mark .colon ∧ kq.1 = word.lexeme ∧
      kq.1 ∉ acc.keywords.map (·.1) ∧ ParamAt scope L nested body rest kq.2 := by
  have hword := Cursor.isWord_of_atKeyword hkey
  refine .advance (kind_ne_of_isWord hword) fun t c₁ ht _ htoken => .expect fun t' c₂ ht' hk => ?_
  have hlength := length_le (w := [t]) ht hn
  have hlength' := length_le (w := [t']) ht' le_rfl
  refine (takes_param hnested (by omega)).bind fun q w c₃ hw hq => .ite (fun _ => .fail _) fun hnew => .pure ?_
  refine ⟨t, t', w, by simp, htoken ▸ hword, hk, rfl, fun hold => hnew ?_, hq⟩
  obtain ⟨kq, hkq, hname⟩ := List.mem_map.1 hold
  exact List.any_eq_true.2 ⟨kq, hkq, beq_iff_eq.2 hname⟩

section Items

variable {w rest body : List Token} {q : Param TypeExpr}

/-- A parameter with one mark before its type. -/
theorem item_marked {f : Form} (ht : t.kind.structural = false) (hform : Form.of (t :: body) = f) (hsize : f.size = 1)
    (hq : ParamAt scope L nested body rest q) : ItemAt scope L nested (t :: body) rest (f, q) := by
  refine ⟨hform, ?_, (Good.plain ht).append hq.good, fun name hname => (hq.names name hname).after [t]⟩
  rw [hsize]
  exact hq.spells

theorem of_keyword {word colon : Token} (hword : word.isWord = true) (hcolon : colon.kind = .mark .colon) :
    Form.of (word :: colon :: body) = .keyword true word.lexeme := by
  have hname : Form.keywordName? (word :: colon :: body) = some word.lexeme := by
    simp [Form.keywordName?, hword, hcolon]
  unfold Token.isWord at hword
  rw [Form.of, hname]
  split at hword
  · rename_i hk
    rw [hk]
    rfl
  · rename_i k hk
    rw [hk]
    rfl
  · cases hword

/-- A keyword parameter, with or without a question mark before it. -/
theorem item_keyword {marks : List Token} {word colon : Token} {required : Bool}
    (hmarks : required = true ∧ marks = [] ∨ required = false ∧ ∃ t, marks = [t] ∧ t.kind = .mark .question)
    (hword : word.isWord = true) (hcolon : colon.kind = .mark .colon)
    (hq : ParamAt scope L nested body rest q) :
    ItemAt scope L nested (marks ++ word :: colon :: body) rest (.keyword required word.lexeme, q) := by
  have hgood : Good scope L false (word :: colon :: body) rest [q.type] := by
    have hcolon' : colon.kind.structural = false := by
      rw [hcolon]
      rfl
    exact (Good.plain (structural_of_isWord hword)).append ((Good.plain hcolon').append hq.good)
  have hnames : ∀ name ∈ q.name, Worded (marks ++ word :: colon :: body) name :=
    fun name hname => by simpa using (hq.names name hname).after (marks ++ [word, colon])
  rcases hmarks with ⟨rfl, rfl⟩ | ⟨rfl, t, rfl, ht⟩
  · exact ⟨of_keyword hword hcolon, hq.spells, hgood, hnames⟩
  · have hname : Form.keywordName? (word :: colon :: body) = some word.lexeme := by
      simp [Form.keywordName?, hword, hcolon]
    have hquestion : t.kind.structural = false := by
      rw [ht]
      rfl
    refine ⟨?_, hq.spells, (Good.plain hquestion).append hgood, hnames⟩
    rw [List.singleton_append, Form.of, ht, hname]
    rfl

theorem of_plain (hw : c.tokens = w ++ rest) (hstarStar : c.atMark .starStar = false) (hstar : c.atMark .star = false)
    (hquestion : c.atMark .question = false) (hkey : Form.keywordName? c.tokens = none) : Form.of w = .plain := by
  cases w with
  | nil => rfl
  | cons t ts =>
    have hkind : c.kind = t.kind := by
      rw [Cursor.kind_eq, Cursor.token, hw]
      rfl
    rw [hw] at hkey
    rw [Form.of, keywordName?_append hkey]
    simp only [Cursor.atMark, hkind, beq_eq_false_iff_ne] at hstarStar hstar hquestion
    split
    · contradiction
    · contradiction
    · contradiction
    · rfl

end Items

theorem keywords_eq_nil {acc : Params TypeExpr} (h : ¬ hasKeywords acc = true) : acc.keywords = [] := by
  simpa [hasKeywords] using h

theorem takes_paramItem (hnested : Takes E scope L false n nested) (hn : c.tokens.length ≤ n) (acc : Params TypeExpr) :
    RunsAt E c (paramItem nested acc) fun w rest acc' =>
      ∃ e, acc.Admits e.1 ∧ acc' = acc.place e ∧ ItemAt scope L nested w rest e := by
  unfold paramItem
  refine .ite (fun _ => .fail _) fun hopen => ?_
  have hunfinished : acc.restKeywords = none := by simpa using hopen
  refine .acceptIte (fun t c₁ ht hk => ?restKeywords) fun hstarStar => ?_
  case restKeywords =>
    have hlength := length_le (w := [t]) ht hn
    refine (takes_param hnested (by omega)).bind fun q w c₂ hw hq => .pure ⟨(.restKeywords, q), ?_, rfl, ?_⟩
    · exact ⟨hunfinished, by simp, by simp, by simp, by simp⟩
    · rw [List.append_nil]
      exact item_marked (by rw [hk]; rfl) (by rw [Form.of, hk]) rfl hq
  refine .acceptIte (fun t c₁ ht hk => ?rest) fun hstar => ?_
  case rest =>
    have hlength := length_le (w := [t]) ht hn
    refine .ite (fun _ => .fail _) fun hrest => .ite (fun _ => .fail _) fun hkeywords => ?_
    refine (takes_param hnested (by omega)).bind fun q w c₂ hw hq => .pure ⟨(.rest, q), ?_, rfl, ?_⟩
    · exact ⟨hunfinished, fun _ => keywords_eq_nil hkeywords, by simp, fun _ => by simpa using hrest, by simp⟩
    · rw [List.append_nil]
      exact item_marked (by rw [hk]; rfl) (by rw [Form.of, hk]) rfl hq
  refine .get (.ite (fun hkey => ?required) fun hkey => ?_)
  case required =>
    refine (takes_keywordParam hnested hn acc hkey).bind fun kq w c₁ hw hkq => .pure ?_
    obtain ⟨word, colon, body, rfl, hword, hcolon, hname, hnew, hq⟩ := hkq
    refine ⟨(.keyword true word.lexeme, kq.2), ⟨hunfinished, by simp, by simp, by simp, ?_⟩, ?_, ?_⟩
    · rintro _ _ ⟨⟩
      rwa [← hname]
    · simp only [Params.place, ← hname]
    · rw [List.append_nil]
      exact item_keyword (.inl ⟨rfl, rfl⟩) hword hcolon hq
  refine .get (.get (.ite (fun hkey' => ?optionalKeyword) fun hkey' => ?_))
  case optionalKeyword =>
    rw [Bool.and_eq_true, Cursor.atMark, beq_iff_eq] at hkey'
    have hne : c.kind ≠ .endOfText := by
      rw [hkey'.1]
      rintro ⟨⟩
    refine .advance hne fun t c₁ ht hk _ => ?_
    have hlength := length_le (w := [t]) ht hn
    have hnext : c₁.atKeyword 0 = true := by
      rw [atKeyword_zero, ← atKeyword_one ht]
      exact hkey'.2
    refine (takes_keywordParam hnested (by omega) acc hnext).bind fun kq w c₂ hw hkq => .pure ?_
    obtain ⟨word, colon, body, rfl, hword, hcolon, hname, hnew, hq⟩ := hkq
    refine ⟨(.keyword false word.lexeme, kq.2), ⟨hunfinished, by simp, by simp, by simp, ?_⟩, ?_, ?_⟩
    · rintro _ _ ⟨⟩
      rwa [← hname]
    · simp only [Params.place, ← hname]
    · rw [List.append_nil]
      exact item_keyword (.inr ⟨rfl, t, rfl, hk.symm.trans hkey'.1⟩) hword hcolon hq
  refine .ite (fun _ => .fail _) fun hkeywords => .acceptIte (fun t c₁ ht hk => ?optional) fun hquestion => ?_
  case optional =>
    refine .ite (fun _ => .fail _) fun hafter => ?_
    have hlength := length_le (w := [t]) ht hn
    refine (takes_param hnested (by omega)).bind fun q w c₂ hw hq => .pure ⟨(.optional, q), ?_, rfl, ?_⟩
    · refine ⟨hunfinished, fun _ => keywords_eq_nil hkeywords, fun _ => ?_, by simp, by simp⟩
      simpa using hafter
    · have hnoName : Form.keywordName? w = none := by
        have hmark : c.atMark .question = true := by
          rw [Cursor.atMark, Cursor.kind_eq, Cursor.token, ht]
          simpa using hk
        have hnone : Form.keywordName? (w ++ c₂.tokens) = none := by
          rw [← hw, ← Option.not_isSome_iff_eq_none, ← atKeyword_one ht]
          simpa [hmark] using hkey'
        exact keywordName?_append hnone
      rw [List.append_nil]
      exact item_marked (by rw [hk]; rfl) (by rw [Form.of, hk, hnoName]; rfl) rfl hq
  have hname : Form.keywordName? c.tokens = none := by
    rw [← Option.not_isSome_iff_eq_none, ← atKeyword_zero]
    simpa using hkey
  have hadmits : acc.Admits .plain := ⟨hunfinished, fun _ => keywords_eq_nil hkeywords, by simp, by simp, by simp⟩
  refine .ite (fun hbefore => ?trailing) fun hbefore => ?plain
  case trailing =>
    refine (takes_param hnested hn).bind fun q w c₁ hw hq => .pure ⟨(.plain, q), hadmits, ?_, ?_⟩
    · simp only [Params.place, if_pos hbefore]
    · rw [List.append_nil]
      exact ⟨of_plain hw hstarStar hstar hquestion hname, hq.spells, hq.good, hq.names⟩
  case plain =>
    refine (takes_param hnested hn).bind fun q w c₁ hw hq => .pure ⟨(.plain, q), hadmits, ?_, ?_⟩
    · simp only [Params.place, if_neg hbefore]
    · rw [List.append_nil]
      exact ⟨of_plain hw hstarStar hstar hquestion hname, hq.spells, hq.good, hq.names⟩

theorem takes_paramItems (hnested : Takes E scope L false n nested) (fuel : Nat) (hn : c.tokens.length ≤ n)
    (hfuel : c.tokens.length < fuel) (acc : Params TypeExpr) :
    RunsAt E c (paramItems nested acc fuel) fun w rest ps => ∃ items es, Row items w ∧
      List.Forall₂ (fun item e => ∃ rest', ItemAt scope L nested item rest' e) items es ∧ acc.Placed es ps ∧
      Good scope L true w rest (es.map (·.2.type)) ∧ ((∀ t ∈ w, t.Faithful) → ∀ e ∈ es, Params.Spelled e) := by
  induction fuel generalizing c acc with
  | zero => omega
  | succ fuel ih =>
    refine (takes_paramItem hnested hn acc).bind fun acc' w c₁ hw hitem => ?_
    obtain ⟨e, hadmits, rfl, hitem⟩ := hitem
    refine .acceptIte (fun t c₂ ht hk => ?_) fun _ => .pure ?_
    · have hlength := length_le hw le_rfl
      have hlength' := length_le (w := [t]) ht le_rfl
      rw [List.length_singleton] at hlength'
      refine (ih (by omega) (by omega) (acc.place e)).mono fun w' rest ps hw' hrest => ?_
      obtain ⟨items, es, hrow, hitems, hplaced, hgood, hspelled⟩ := hrest
      refine ⟨w :: items, e :: es, .cons w hk hrow, .cons ⟨_, hitem⟩ hitems, .cons hadmits hplaced, ?_, fun hall => ?_⟩
      · have hfirst := hitem.2.2.1
        rw [ht, hw'] at hfirst
        exact hfirst.loosen.append ((good_comma hk).append hgood)
      · obtain ⟨hall, hall'⟩ := List.forall_mem_append.1 hall
        exact List.forall_mem_cons.2 ⟨hitem.spelled hall, hspelled fun t ht => hall' t (List.mem_cons_of_mem _ ht)⟩
    · rw [List.append_nil]
      exact ⟨[w], [e], .last w, .cons ⟨_, hitem⟩ .nil, .cons hadmits .nil, hitem.2.2.1.loosen,
        fun hall => List.forall_mem_singleton.2 (hitem.spelled hall)⟩

/-- The parameters of a list are those of its tokens, in the order that is accepted. -/
def Laid (nested : Parser ε TypeExpr) (inner : List Token) (ps : Params TypeExpr) : Prop :=
  ∃ early keywords, ps.Grouped early keywords ∧
    List.Forall₂ (fun item e => Form.of item = e.1 ∧ Spells nested (item.drop e.1.size) e.2) (listItems inner)
      (ps.written early keywords)

/-- What is known of a parameter list whatever its types are, if its tokens spell what they mean. -/
def Shaped (w : List Token) (ps : Params TypeExpr) : Prop := (∀ t ∈ w, t.Faithful) → ps.Read fun _ => True

theorem Shaped.within {w : List Token} (h : Shaped w ps) (before after : List Token) :
    Shaped (before ++ (w ++ after)) ps :=
  fun hall => h fun t ht => hall t (List.mem_append_right before (List.mem_append_left after ht))

theorem shaped_empty {w : List Token} : Shaped w {} := fun _ => Params.grouped_empty.read (by simp [Params.written_empty])

/-- The tokens of a parameter list, after its opening bracket. -/
theorem takes_params (hnested : Takes E scope L false n nested) (hn : c.tokens.length ≤ n) :
    RunsAt E c (params nested) fun w rest ps => ∃ o inner e, w = o :: (inner ++ [e]) ∧ o.kind = .mark .lparen ∧
      e.kind = .mark .rparen ∧ Good scope L true inner (e :: rest) ps.types ∧ Laid nested (inner ++ e :: rest) ps ∧
      Shaped inner ps := by
  refine .expect fun o c₁ ho hkind => .get (.ite (fun hempty => ?empty) fun hitems => .get ?items)
  case empty =>
    refine (RunsAt.pure (Q := fun w _ ps => w = [] ∧ ps = {}) ⟨rfl, rfl⟩).bind fun ps w c₂ hw hps => ?_
    obtain ⟨rfl, rfl⟩ := hps
    refine .expect fun e c₃ he hclose =>
      .pure ⟨o, [], e, rfl, hkind, hclose, .nil, ⟨0, [], Params.grouped_empty, ?_⟩, shaped_empty⟩
    have hcloses : e.kind.closes = true := by
      rw [hclose]
      rfl
    rw [List.nil_append, listItems, if_pos hcloses]
    exact .nil
  case items =>
    have hlength := length_le (w := [o]) ho hn
    refine (takes_paramItems hnested _ (by omega) (Nat.lt_succ_self _) {}).bind fun ps w c₂ hw hps => ?_
    obtain ⟨items, es, hrow, hes, hplaced, hgood, hspelled⟩ := hps
    refine .expect fun e c₃ he hclose => .pure ⟨o, w, e, by simp, hkind, hclose, ?_, ?_, fun hw => ?_⟩
    all_goals obtain ⟨early, keywords, hgrouped, hwritten⟩ := hplaced.grouped Params.grouped_empty
    all_goals rw [Params.written_empty, List.nil_append] at hwritten
    · rw [he] at hgood
      refine hgood.types fun t ht => ?_
      obtain ⟨q, hq, rfl⟩ := List.mem_map.1 ht
      have hmem := hgrouped.mem_written hq
      rw [hwritten] at hmem
      simpa [Function.comp_def] using List.mem_map_of_mem (f := Param.type) hmem
    · have hne : w ≠ [] := by
        rintro rfl
        refine hitems ?_
        rw [Cursor.atMark, Cursor.kind_eq, Cursor.token, hw, List.nil_append, he]
        simpa using hclose
      have hspelled : List.Forall₂ (fun item e => Closed false item ∧ Form.of item = e.1 ∧
          Spells nested (item.drop e.1.size) e.2) items es := by
        refine hes.imp fun item e hitem => ?_
        obtain ⟨_, hform, hspells, hitem, -⟩ := hitem
        exact ⟨hitem.closed, hform, hspells⟩
      obtain ⟨hclosed, hwords⟩ := (List.forall₂_and_left _ _).1 hspelled
      refine ⟨early, keywords, hgrouped, ?_⟩
      rw [hrow.listItems hclosed hgood.closed hne (by rw [hclose]; rfl), hwritten]
      exact hwords
    · refine hgrouped.read fun e he => hspelled hw e ?_
      rwa [hwritten] at he

end Parser

end Conformance
