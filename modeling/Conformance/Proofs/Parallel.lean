import Mathlib
import Conformance.Proofs.Congruence
import Conformance.Proofs.Lexing

/-!
# Reading tokens that are alike

A reader goes by the kinds and lexemes of the tokens up to the end, and neither by their places nor by what comes after
the end.  Two readers are `Parallel` when they do the same on tokens that are alike; readers that are built alike from such
readers are (`congruence_parallel`).  If a closing brace stands in place of the end, this is so only as long as the first
reader does not stop: at the end it may ask for more, where the second one finds the brace.
-/

namespace Conformance

namespace Parser

variable {ε α β : Type} {tail : Option (List Token)}

namespace Alike

variable {c c' : Cursor}

/-- Before the end, the next tokens are alike, and so are those after them. -/
theorem next (h : Alike tail c.tokens c'.tokens) (hne : c.kind ≠ .endOfText) :
    c.token.unplaced = c'.token.unplaced ∧ Alike tail c.next.tokens c'.next.tokens := by
  have hnext {t : Token} {ts : List Token} {m : List String} (ht : t.kind ≠ .endOfText) :
      (⟨t :: ts, m⟩ : Cursor).next.tokens = ts := by
    rw [Cursor.next, if_neg (by simpa [Cursor.kind] using ht)]
    rfl
  obtain ⟨ts, m⟩ := c
  obtain ⟨us, m'⟩ := c'
  cases h with
  | nil => exact absurd rfl hne
  | @cons t u ts us ht _ hts =>
    have hkind : t.kind = u.kind := (congrArg Token.kind ht :)
    rw [hnext hne, hnext (hkind ▸ hne)]
    exact ⟨ht, hts⟩
  | last _ he => exact absurd he hne

/-- With the same end, the next token is the same. -/
theorem token (h : Alike tail c.tokens c'.tokens) (htail : tail ≠ none) (hkind : c.kind = c'.kind) :
    c.token = c'.token := by
  obtain ⟨ts, m⟩ := c
  obtain ⟨us, m'⟩ := c'
  cases h with
  | nil => rfl
  | cons _ hplaced => exact hplaced htail
  | last _ he hu =>
    rcases hu with rfl | hu
    · rfl
    · exact absurd (he.symm.trans (hkind.trans hu)) (by rintro ⟨⟩)

theorem of_faces : ∀ {ts us : List Token}, ts.map Token.face = us.map Token.face → Alike none ts us
  | [], [], _ => .nil rfl
  | t :: ts, u :: us, h => by
    obtain ⟨hface, hrest⟩ := List.cons.inj h
    have ht : t.unplaced = u.unplaced := congrArg (fun f : Face => (⟨f.kind, f.lexeme, default⟩ : Token)) hface
    exact .cons ht (absurd rfl) (of_faces hrest)

theorem append {e u : Token} (us : List Token) (he : e.kind = .endOfText) (hu : u = e ∨ u.kind = .mark .rbrace) :
    ∀ ts : List Token, Alike (some (u :: us)) (ts ++ [e]) (ts ++ u :: us)
  | [] => .last rfl he hu
  | _ :: ts => .cons rfl (fun _ => rfl) (append us he hu ts)

theorem split {us us' ts : List Token} (h : Alike (some us) ts us') : ∃ w e, ts = w ++ [e] ∧ us' = w ++ us := by
  induction h with
  | nil htail => cases htail
  | @cons t u _ _ _ hplaced _ ih =>
    obtain ⟨w, e, rfl, rfl⟩ := ih
    exact ⟨t :: w, e, rfl, by rw [hplaced (by simp), List.cons_append]⟩
  | @last e _ _ htail => exact ⟨[], e, rfl, (Option.some.inj htail).symm⟩

end Alike

/-- A reading that stopped for the reason stops where the tail follows, too. -/
def Mirrored (tail : Option (List Token)) (reason : Reason ε) : Prop :=
  ∀ us, tail = some us → Cursor.kind ⟨us, []⟩ ≠ .mark .rbrace ∧ reason ≠ .exhausted

/-- What the first reader does, the second one does on tokens that are alike, up to the view.  It may have met names
before. -/
def Parallel (tail : Option (List Token)) (α : Type) (V : α → α → Prop) (p p' : Parser ε α) : Prop :=
  ∀ (before : List String) (c c' : Cursor), Alike tail c.tokens c'.tokens → c'.mentions = before ++ c.mentions →
    (∃ h, p.run c = .error h ∧ (Mirrored tail h.reason → ∃ h', p'.run c' = .error h' ∧
        h'.mentions = before ++ h.mentions ∧ (tail ≠ none → h'.reason = h.reason))) ∨
      ∃ a a' c₁ c₁', p.run c = .ok (a, c₁) ∧ p'.run c' = .ok (a', c₁') ∧ V a a' ∧ Alike tail c₁.tokens c₁'.tokens ∧
        c₁'.mentions = before ++ c₁.mentions

namespace Parallel

variable {W : β → β → Prop}

theorem bind {V : α → α → Prop} {p p' : Parser ε α} {f f' : α → Parser ε β} (hp : Parallel tail α V p p')
    (hf : ∀ a a', V a a' → Parallel tail β W (f a) (f' a')) : Parallel tail β W (p >>= f) (p' >>= f') := by
  intro before c c' hc hmentions
  rcases hp before c c' hc hmentions with ⟨h, hrun, hstop⟩ | ⟨a, a', c₁, c₁', hrun, hrun', hview, hc₁, hmentions₁⟩
  · refine .inl ⟨h, run_bind_of_error hrun, fun hmirrored => ?_⟩
    obtain ⟨h', hrun', hsame⟩ := hstop hmirrored
    exact ⟨h', run_bind_of_error hrun', hsame⟩
  · rw [run_bind_of_ok hrun, run_bind_of_ok hrun']
    exact hf a a' hview before c₁ c₁' hc₁ hmentions₁

theorem fail {V : α → α → Prop} (message : String) : Parallel tail α V (fail message : Parser ε α) (fail message) := by
  intro before c c' hc hmentions
  refine .inl ⟨_, rfl, fun hmirrored => ⟨_, rfl, hmentions, fun htail => ?_⟩⟩
  have hkind : c.kind = c'.kind := by
    rcases hc.kind with hk | ⟨hsome, -, hk⟩
    · exact hk
    · exact absurd hk (hmirrored _ hsome).1
  rw [hc.token htail hkind]

theorem take {f f' : Token → Parser ε β} (hf : ∀ t : Token, f' t.unplaced = f' t)
    (h : ∀ t, Parallel tail β W (f t) (f' t)) : Parallel tail β W (advance >>= f) (advance >>= f') := by
  intro before c c' hc hmentions
  have hend {c : Cursor} (he : c.kind = .endOfText) :
      (advance : Parser ε Token).run c = .error ⟨.exhausted, c.mentions⟩ := by
    change (if (c.kind == .endOfText) = true then _ else _) = _
    rw [if_pos (by simpa using he)]
    rfl
  by_cases hne : c.kind = .endOfText
  · refine .inl ⟨_, run_bind_of_error (hend hne), fun hmirrored => ?_⟩
    rcases hc.kind with hk | ⟨hsome, -, hk⟩
    · exact ⟨_, run_bind_of_error (hend (hk ▸ hne)), hmentions, fun _ => rfl⟩
    · exact absurd hk (hmirrored _ hsome).1
  · have hkind : c.kind = c'.kind := hc.kind.resolve_right fun h => hne h.2.1
    obtain ⟨htoken, hnext⟩ := hc.next hne
    rw [run_bind_of_ok (run_advance hne), run_bind_of_ok (run_advance (hkind ▸ hne)), ← hf c'.token, ← htoken, hf]
    refine h c.token before c.next c'.next hnext ?_
    rw [Congruence.mentions_next, Congruence.mentions_next, hmentions]

theorem accept {m : Mark} {before : List String} {c c' : Cursor} (hc : Alike tail c.tokens c'.tokens)
    (hmentions : c'.mentions = before ++ c.mentions) (hm : c.atMark m = c'.atMark m) :
    ∃ b c₁ c₁', (accept m : Parser ε Bool).run c = .ok (b, c₁) ∧ (Parser.accept m : Parser ε Bool).run c' = .ok (b, c₁') ∧
      Alike tail c₁.tokens c₁'.tokens ∧ c₁'.mentions = before ++ c₁.mentions := by
  change ∃ b c₁ c₁', Parser.accept m c = _ ∧ Parser.accept m c' = _ ∧ _
  unfold Parser.accept
  rw [← hm]
  split
  · rename_i hmark
    have hne : c.kind ≠ .endOfText := by
      rw [beq_iff_eq.1 hmark]
      rintro ⟨⟩
    refine ⟨_, _, _, rfl, rfl, (hc.next hne).2, ?_⟩
    rw [Congruence.mentions_next, Congruence.mentions_next, hmentions]
  · exact ⟨_, _, _, rfl, rfl, hc, hmentions⟩

theorem expect (m : Mark) (message : String) :
    Parallel tail Unit Eq (expect m message : Parser ε Unit) (expect m message) := by
  intro before c c' hc hmentions
  by_cases hm : c.atMark m = c'.atMark m
  · obtain ⟨b, c₁, c₁', hrun, hrun', hc₁, hmentions₁⟩ := accept hc hmentions hm
    unfold Parser.expect
    rw [run_bind_of_ok hrun, run_bind_of_ok hrun']
    cases b with
    | true => exact .inr ⟨_, _, _, _, rfl, rfl, rfl, hc₁, hmentions₁⟩
    | false => exact fail message before c₁ c₁' hc₁ hmentions₁
  · rcases hc.kind with hk | ⟨hsome, he, hk⟩
    · exact absurd (congrArg (· == TokenKind.mark m) hk) hm
    · have hrun : (Parser.accept m : Parser ε Bool).run c = .ok (false, c) := by
        change (if c.atMark m = true then _ else _) = _
        rw [Cursor.atMark, he, if_neg (by simp)]
      exact .inl ⟨_, run_bind_of_ok hrun, fun hmirrored => absurd hk (hmirrored _ hsome).1⟩

theorem unlessClosed {p p' q q' : Parser ε β} (hp : Parallel tail β W p p') (hq : Parallel tail β W q q')
    (hend : ∀ c : Cursor, c.kind = .endOfText → ∃ h, q.run c = .error h) :
    Parallel tail β W (get >>= fun c => if c.atMark .rbrace = true then p else q)
      (get >>= fun c => if c.atMark .rbrace = true then p' else q') := by
  intro before c c' hc hmentions
  rcases hc.kind with hk | ⟨hsome, he, hk⟩
  · have hmark : c.atMark .rbrace = c'.atMark .rbrace := by rw [Cursor.atMark, Cursor.atMark, hk]
    exact Congruence.ite hmark hp hq before c c' hc hmentions
  · obtain ⟨h, hrun⟩ := hend c he
    refine .inl ⟨h, ?_, fun hmirrored => absurd hk (hmirrored _ hsome).1⟩
    change StateT.run (if c.atMark .rbrace = true then p else q) c = _
    rw [Cursor.atMark, he, if_neg (by simp), hrun]

end Parallel

theorem congruence_parallel : Congruence tail (Parallel (ε := ε) tail) where
  pure hview _ c c' hc hmentions := .inr ⟨_, _, c, c', rfl, rfl, hview, hc, hmentions⟩
  bind := .bind
  look h before c c' hc hmentions := h c c' hc before c c' hc hmentions
  take := .take
  accept hm _ c c' hc hmentions := by
    obtain ⟨b, c₁, c₁', hrun, hrun', hsame⟩ := Parallel.accept hc hmentions (hc.atMark hm)
    exact .inr ⟨b, b, c₁, c₁', hrun, hrun', rfl, hsame⟩
  expect := .expect
  unlessClosed := .unlessClosed
  fail := .fail
  exhausted hp' _ c c' hc hmentions := by
    refine .inl ⟨_, rfl, fun hmirrored => ?_⟩
    cases tail with
    | none => exact ⟨_, by rw [hp' rfl]; rfl, hmentions, absurd rfl⟩
    | some us => exact absurd rfl (hmirrored us rfl).2

theorem parallel_lookup (resolve : String → Except ε (List (Capability TypeExpr))) (names : List String)
    (name : String) :
    Parallel tail _ (Kept True) (lookup ⟨names, resolve⟩ name) (lookup ⟨names, resolve⟩ name) := by
  intro before c c' hc hmentions
  change (∃ h, lookup ⟨names, resolve⟩ name c = _ ∧ (_ → ∃ h', lookup ⟨names, resolve⟩ name c' = _ ∧ _)) ∨
    ∃ a a' c₁ c₁', lookup ⟨names, resolve⟩ name c = _ ∧ lookup ⟨names, resolve⟩ name c' = _ ∧ _
  unfold lookup
  dsimp only
  rw [hmentions, List.append_assoc]
  cases resolve name with
  | error e => exact .inl ⟨_, rfl, fun _ => ⟨_, rfl, rfl, fun _ => rfl⟩⟩
  | ok methods => exact .inr ⟨_, _, _, _, rfl, rfl, fun _ => rfl, hc, rfl⟩

theorem parallel_types (scope : Scope ε) {n n' : Nat} (hn : Fuel tail n n') :
    Parallel tail _ (Kept True) (typeExpr scope n) (typeExpr scope n') ∧
      Parallel tail _ (Kept True) (optionalType scope n) (optionalType scope n') :=
  congruence_parallel.typeExpr_optionalType (parallel_lookup scope.resolve) hn

end Parser

end Conformance
