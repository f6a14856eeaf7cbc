import Mathlib
import Conformance.TypeExpr.Parser

/-!
# Readers that are built alike

The lookup of interfaces is a parameter of the reader of type expressions and signatures.  What follows for whole texts
when it is replaced is proved once for all relations between readers that hold of readers built alike (`Congruence`):
where they hold of two lookups, they hold of the readers built from them (`Congruence.wholeType`,
`Congruence.wholeSignature`).

A relation goes with a view of what the two readers give.  Types are put into the tree and not looked at again, so they
may differ altogether (`Kept`).  What a reader does look at, apart from the tokens, are the groups of parameters
(`Params.outline`) and the keys of fields that it read before.  Of tokens it looks at kinds and lexemes, and never at their
places, so a relation may take the places away (`Cursor.unplaced`).
-/

namespace Conformance

/-- The token without its place. -/
def Token.unplaced (t : Token) : Token := { t with span := default }

/-- What the reader of a parameter list looks at when it reads the next parameter. -/
structure Params.Outline where
  optional : Bool
  rest : Bool
  trailing : Bool
  requiredKeywords : List String
  optionalKeywords : List String
  restKeywords : Bool

/-- What is looked at of the groups read so far. -/
def Params.outline (p : Params TypeExpr) : Params.Outline where
  optional := p.optional.isEmpty
  rest := p.rest.isSome
  trailing := p.trailing.isEmpty
  requiredKeywords := p.requiredKeywords.map (·.1)
  optionalKeywords := p.optionalKeywords.map (·.1)
  restKeywords := p.restKeywords.isSome

namespace Parser

variable {ε α β : Type} {m : Mark} {p : Parser ε α} {f : α → Parser ε β}

/-! ## Tokens that are alike -/

/-- The lists hold the same tokens, their places apart.  If a tail is given, the places are the same, too, and the second
list goes on with the tail where the first one ends: with the same end, or with a closing brace. -/
inductive Alike (tail : Option (List Token)) : List Token → List Token → Prop
  | nil (htail : tail = none) : Alike tail [] []
  | cons {t u : Token} {ts us : List Token} (ht : t.unplaced = u.unplaced) (hplaced : tail ≠ none → t = u)
      (hts : Alike tail ts us) : Alike tail (t :: ts) (u :: us)
  | last {e u : Token} {us : List Token} (htail : tail = some (u :: us)) (he : e.kind = .endOfText)
      (hu : u = e ∨ u.kind = .mark .rbrace) : Alike tail [e] (u :: us)

/-- The fuel of the two readers is the same, or the second may have more. -/
def Fuel (tail : Option (List Token)) (n n' : Nat) : Prop := n ≤ n' ∧ (tail = none → n = n')

namespace Fuel

variable {tail : Option (List Token)} {n n' : Nat}

theorem add_one (h : Fuel tail n n') : Fuel tail (n + 1) (n' + 1) :=
  ⟨Nat.succ_le_succ h.1, fun htail => congrArg Nat.succ (h.2 htail)⟩

theorem twice (h : Fuel tail n n') : Fuel tail (2 * n + 2) (2 * n' + 2) :=
  ⟨by have := h.1; omega, fun htail => by rw [h.2 htail]⟩

theorem succ (h : Fuel tail (n + 1) n') : ∃ k, n' = k + 1 ∧ Fuel tail n k := by
  obtain ⟨hle, heq⟩ := h
  exact ⟨n' - 1, by omega, by omega, fun htail => by have := heq htail; omega⟩

end Fuel

namespace Alike

variable {tail : Option (List Token)} {c c' : Cursor}

theorem refl : ∀ ts : List Token, Alike none ts ts
  | [] => .nil rfl
  | _ :: ts => .cons rfl (fun _ => rfl) (refl ts)

theorem length {ts us : List Token} (h : Alike tail ts us) : Fuel tail ts.length us.length := by
  induction h with
  | nil => exact ⟨le_rfl, fun _ => rfl⟩
  | cons _ _ _ ih => exact ih.add_one
  | last htail => exact ⟨by simp, fun hnone => by simp [htail] at hnone⟩

/-- The next tokens are of the same kind, or the end stands against a closing brace. -/
theorem kind (h : Alike tail c.tokens c'.tokens) :
    c.kind = c'.kind ∨ tail = some c'.tokens ∧ c.kind = .endOfText ∧ c'.kind = .mark .rbrace := by
  obtain ⟨ts, m⟩ := c
  obtain ⟨us, m'⟩ := c'
  cases h with
  | nil => exact .inl rfl
  | cons ht => exact .inl (congrArg Token.kind ht :)
  | last htail he hu =>
    rcases hu with rfl | hu
    · exact .inl rfl
    · exact .inr ⟨htail, he, hu⟩

theorem lexeme (h : Alike none c.tokens c'.tokens) : c.token.lexeme = c'.token.lexeme := by
  obtain ⟨ts, m⟩ := c
  obtain ⟨us, m'⟩ := c'
  cases h with
  | nil => rfl
  | cons ht => exact (congrArg Token.lexeme ht :)
  | last htail => cases htail

section

variable (h : Alike tail c.tokens c'.tokens)
include h

/-- Conditions on the next token that neither an end nor a closing brace meets, and on what comes after it. -/
theorem agree (P : TokenKind → Bool) (f g : Cursor → Bool)
    (hend : P .endOfText = false) (hbrace : P (.mark .rbrace) = false)
    (hf : ∀ {c c' : Cursor}, Alike tail c.tokens c'.tokens → f c = f c') (hnil : ∀ m, g ⟨[], m⟩ = false)
    (hcons : ∀ t ts m, g ⟨t :: ts, m⟩ = (P t.kind && f ⟨ts, m⟩)) : g c = g c' := by
  obtain ⟨ts, m⟩ := c
  obtain ⟨us, m'⟩ := c'
  cases h with
  | nil => rw [hnil, hnil]
  | @cons t u ts us ht _ hts =>
    have hkind : t.kind = u.kind := (congrArg Token.kind ht :)
    rw [hcons, hcons, hkind, @hf ⟨ts, m⟩ ⟨us, m'⟩ hts]
  | last _ he hu =>
    rw [hcons, hcons, he, hend]
    rcases hu with rfl | hu
    · rw [he, hend, Bool.false_and, Bool.false_and]
    · rw [hu, hbrace, Bool.false_and, Bool.false_and]

theorem kind_beq {k : TokenKind} (hend : k ≠ .endOfText) (hbrace : k ≠ .mark .rbrace) :
    (c.kind == k) = (c'.kind == k) :=
  h.agree (· == k) (fun _ => true) (·.kind == k) (beq_false_of_ne hend.symm) (beq_false_of_ne hbrace.symm) (fun _ => rfl)
    (fun _ => beq_false_of_ne hend.symm) fun _ _ _ => (Bool.and_true _).symm

theorem atMark (hm : m ≠ .rbrace) : c.atMark m = c'.atMark m :=
  h.kind_beq (by rintro ⟨⟩) fun hk => hm (TokenKind.mark.inj hk)

theorem isWord : c.token.isWord = c'.token.isWord :=
  h.agree (fun k => Token.isWord ⟨k, "", default⟩) (fun _ => true) (·.token.isWord) rfl rfl (fun _ => rfl) (fun _ => rfl)
    fun _ _ _ => (Bool.and_true _).symm

theorem atKeyword : c.atKeyword 0 = c'.atKeyword 0 :=
  h.agree (fun k => Token.isWord ⟨k, "", default⟩) (·.kind == .mark .colon) (·.atKeyword 0) rfl rfl
    (fun hc => hc.kind_beq (by decide) (by decide)) (fun _ => rfl) fun _ _ _ => rfl

theorem questionKeyword :
    (c.atMark .question && c.atKeyword 1) = (c'.atMark .question && c'.atKeyword 1) :=
  h.agree (· == .mark .question) (·.atKeyword 0) (fun c => c.atMark .question && c.atKeyword 1) rfl rfl atKeyword
    (fun _ => rfl) fun _ _ _ => rfl

theorem atBlock : c.atBlock = c'.atBlock := by
  have hbrace := h.agree (· == .mark .question) (·.kind == .mark .lbrace)
    (fun c => c.atMark .question && c.kind 1 == .mark .lbrace) rfl rfl (fun hc => hc.kind_beq (by decide) (by decide))
    (fun _ => rfl) fun _ _ _ => rfl
  rw [Cursor.atBlock, Cursor.atBlock, h.atMark (by decide), hbrace]

end

end Alike

/-! ## Relations between readers -/

theorem run_advance {c : Cursor} (h : c.kind ≠ .endOfText) :
    (advance : Parser ε Token).run c = .ok (c.token, c.next) := by
  change (if (c.kind == .endOfText) = true then _ else _) = _
  rw [if_neg (by simpa using h)]

theorem run_bind_of_ok {c c₁ : Cursor} {a : α} (h : p.run c = .ok (a, c₁)) : (p >>= f).run c = (f a).run c₁ := by
  rw [StateT.run_bind, h]
  rfl

theorem run_bind_of_error {c : Cursor} {e : Halt ε} (h : p.run c = .error e) : (p >>= f).run c = .error e := by
  rw [StateT.run_bind, h]
  rfl

/-- The two are the same, if they have to be. -/
def Kept (same : Prop) (a a' : α) : Prop := same → a = a'

/-- The groups read so far are looked at alike, and are the same if they have to be. -/
def GroupsKept (same : Prop) (acc acc' : Params TypeExpr) : Prop := acc.outline = acc'.outline ∧ Kept same acc acc'

/-- The keyword parameters have the same name, and are the same if they have to be. -/
def KeywordKept (same : Prop) (q q' : String × Param TypeExpr) : Prop := q.1 = q'.1 ∧ Kept same q q'

/-- The fields read so far are looked at alike, and are the same if they have to be. -/
def FieldsKept (same : Prop) (r r' : List (Field TypeExpr) × Option TypeExpr) : Prop :=
  (r.1.map (·.key) = r'.1.map (·.key) ∧ r.2.isSome = r'.2.isSome) ∧ Kept same r r'

instance {same : Prop} : Std.Refl (Kept same : α → α → Prop) := ⟨fun _ _ => rfl⟩

instance {same : Prop} : Std.Refl (GroupsKept same) := ⟨fun _ => ⟨rfl, fun _ => rfl⟩⟩

instance {same : Prop} : Std.Refl (KeywordKept same) := ⟨fun _ => ⟨rfl, fun _ => rfl⟩⟩

instance {same : Prop} : Std.Refl (FieldsKept same) := ⟨fun _ => ⟨⟨rfl, rfl⟩, fun _ => rfl⟩⟩

/-- Relations that hold of readers built alike from related ones, over tokens that are alike.  Each is taken together with
a view of what the readers give.  Since a closing brace may stand where the other tokens end, it is not taken like other
marks: it has to be there, or it decides whether there is anything to read. -/
structure Congruence (tail : Option (List Token)) (R : (α : Type) → (α → α → Prop) → Parser ε α → Parser ε α → Prop) :
    Prop where
  pure : ∀ {α : Type} {V : α → α → Prop} {a a' : α}, V a a' → R α V (pure a) (pure a')
  bind : ∀ {α β : Type} {V : α → α → Prop} [Std.Refl V] {W : β → β → Prop} {p p' : Parser ε α} {f f' : α → Parser ε β},
    R α V p p' → (∀ a a', V a a' → R β W (f a) (f' a')) → R β W (p >>= f) (p' >>= f')
  look : ∀ {β : Type} {W : β → β → Prop} {f f' : Cursor → Parser ε β},
    (∀ c c', Alike tail c.tokens c'.tokens → R β W (f c) (f' c')) → R β W (get >>= f) (get >>= f')
  take : ∀ {β : Type} {W : β → β → Prop} {f f' : Token → Parser ε β}, (∀ t : Token, f' t.unplaced = f' t) →
    (∀ t, R β W (f t) (f' t)) → R β W (advance >>= f) (advance >>= f')
  accept : ∀ {m : Mark}, m ≠ .rbrace → R Bool Eq (accept m) (accept m)
  expect : ∀ (m : Mark) (message : String), R Unit Eq (expect m message) (expect m message)
  unlessClosed : ∀ {β : Type} {W : β → β → Prop} {p p' q q' : Parser ε β}, R β W p p' → R β W q q' →
    (∀ c : Cursor, c.kind = .endOfText → ∃ h, q.run c = .error h) →
    R β W (get >>= fun c => if c.atMark .rbrace = true then p else q)
      (get >>= fun c => if c.atMark .rbrace = true then p' else q')
  fail : ∀ {α : Type} {V : α → α → Prop} (message : String), R α V (fail message) (fail message)
  exhausted : ∀ {α : Type} {V : α → α → Prop} {p' : Parser ε α}, (tail = none → p' = exhausted) → R α V exhausted p'

namespace Congruence

variable {R : (α : Type) → (α → α → Prop) → Parser ε α → Parser ε α → Prop} {tail : Option (List Token)}

theorem mentions_next (c : Cursor) : c.next.mentions = c.mentions := by
  unfold Cursor.next
  split <;> rfl

theorem ite {V : α → α → Prop} {b b' : Bool} (hb : b = b') {p' q q' : Parser ε α} (hp : R α V p p') (hq : R α V q q') :
    R α V (if b = true then p else q) (if b' = true then p' else q') := by
  subst hb
  split
  · exact hp
  · exact hq

/-- A relation that `bind` keeps holds of readers built alike if it holds of every reader and itself that takes tokens or
stops, and looks nothing up. -/
theorem of_steps (hpure : ∀ {α : Type} {V : α → α → Prop} {a a' : α}, V a a' → R α V (Pure.pure a) (Pure.pure a'))
    (hbind : ∀ {α β : Type} {V : α → α → Prop} [Std.Refl V] {W : β → β → Prop} {p p' : Parser ε α} {f f' : α → Parser ε β},
      R α V p p' → (∀ a a', V a a' → R β W (f a) (f' a')) → R β W (p >>= f) (p' >>= f'))
    (hstep : ∀ {α : Type} (p : Parser ε α), (∀ c a c₁, p.run c = .ok (a, c₁) → c₁.mentions = c.mentions) → R α Eq p p) :
    Congruence none R := by
  -- a reader that always stops gives nothing to view
  have hstop {α : Type} {V : α → α → Prop} (p : Parser ε Empty) : R α V (p >>= Empty.elim) (p >>= Empty.elim) :=
    hbind (hstep p fun _ a => a.elim) fun a => a.elim
  have hlook {β : Type} {W : β → β → Prop} {f f' : Cursor → Parser ε β} (h : ∀ c, R β W (f c) (f' c)) :
      R β W (get >>= f) (get >>= f') :=
    hbind (hstep get fun c _ _ h => by cases h; rfl) fun c _ hc => hc ▸ h c
  have haccept (m : Mark) : R Bool Eq (Parser.accept m) (Parser.accept m) := hstep (Parser.accept m) fun c b c₁ hrun => by
    change (if c.atMark m = true then _ else _) = _ at hrun
    split at hrun <;> cases hrun
    · exact mentions_next c
    · rfl
  exact {
    pure := hpure
    bind := hbind
    look h := hlook fun c => h c c (.refl _)
    take _ h := by
      refine hbind (hstep advance fun c t c₁ hrun => ?_) fun t _ ht => ht ▸ h t
      change (if (c.kind == .endOfText) = true then _ else _) = _ at hrun
      split at hrun <;> cases hrun
      exact mentions_next c
    accept _ := haccept _
    expect m message := hbind (haccept m) fun b _ hb => hb ▸ ite rfl (hstop (Parser.fail message)) (hpure rfl)
    unlessClosed hp hq _ := hlook fun _ => ite rfl hp hq
    fail message := hstop (Parser.fail message)
    exhausted h := by
      rw [h rfl]
      exact hstop Parser.exhausted }

section Parts

variable (hR : Congruence tail R) {fuel fuel' : Nat}

include hR

/-- Related readers after readers that give the same. -/
theorem after {W : β → β → Prop} {p' : Parser ε α} {f' : α → Parser ε β} (hp : R α Eq p p')
    (hf : ∀ a, R β W (f a) (f' a)) : R β W (p >>= f) (p' >>= f') := by
  refine hR.bind hp fun a a' h => ?_
  cases h
  exact hf a

theorem expectIdentifier (message : String) : R String Eq (expectIdentifier message) (expectIdentifier message) :=
  hR.look fun _ _ hc =>
    ite (hc.kind_beq (by decide) (by decide)) (hR.take (fun _ => rfl) fun _ => hR.pure rfl) (hR.fail message)

/-- The first reader stops if its fuel is used up. -/
theorem unfuelled {V : α → α → Prop} {p : Nat → Parser ε α} (hfuel : Fuel tail 0 fuel) (hp : p 0 = Parser.exhausted) :
    R α V Parser.exhausted (p fuel) :=
  hR.exhausted fun htail => by rw [← hfuel.2 htail, hp]

theorem nameParts (name : QualifiedName) (hfuel : Fuel tail fuel fuel') :
    R _ Eq (nameParts name fuel) (nameParts name fuel') := by
  induction fuel generalizing name fuel' with
  | zero => exact hR.unfuelled hfuel rfl
  | succ fuel ih =>
    obtain ⟨fuel', rfl, hless⟩ := hfuel.succ
    refine hR.look fun c c' hc => ite ?_ (hR.take (fun _ => rfl) fun _ => hR.take (fun _ => rfl) fun _ => ih _ hless)
      (hR.pure rfl)
    exact hc.agree (fun k => k == .mark .colonColon || k == .mark .dot) (·.kind == .identifier)
      (fun c => (c.atMark .colonColon || c.atMark .dot) && c.kind 1 == .identifier) rfl rfl
      (fun hc => hc.kind_beq (by decide) (by decide)) (fun _ => rfl) fun _ _ _ => rfl

theorem qualifiedName : R _ Eq qualifiedName qualifiedName :=
  hR.after (hR.accept (by decide)) fun _ => hR.after (hR.expectIdentifier _) fun _ =>
    hR.look fun _ _ hc => hR.nameParts _ hc.length.add_one

theorem singleton {same : Prop} : R _ (Kept same) singleton singleton :=
  hR.after (hR.expect _ _) fun _ => hR.after hR.qualifiedName fun _ => hR.after (hR.expect _ _) fun _ =>
    hR.pure fun _ => rfl

theorem fieldKey : R _ Eq fieldKey fieldKey := by
  refine hR.look fun c c' hc => ite hc.atKeyword ?_ ?_
  · exact hR.take (fun _ => rfl) fun _ => hR.take (fun _ => rfl) fun _ => hR.pure rfl
  · have hliteral : literal? c.kind = literal? c'.kind := by
      rcases hc.kind with hk | ⟨-, hk, hk'⟩
      · rw [hk]
      · rw [hk, hk']
        rfl
    rw [← hliteral]
    cases hl : literal? c.kind with
    | none => exact hR.fail _
    | some l =>
      refine ite ?_ (hR.take (fun _ => rfl) fun _ => hR.take (fun _ => rfl) fun _ => hR.pure rfl) (hR.fail _)
      have harrow := hc.agree (fun k => (literal? k).isSome) (·.kind == .mark .fatArrow)
        (fun c => (literal? c.kind).isSome && c.kind 1 == .mark .fatArrow) rfl rfl
        (fun hc => hc.kind_beq (by decide) (by decide)) (fun _ => rfl) fun _ _ _ => rfl
      rwa [← hliteral, hl] at harrow

theorem typeParamNames (names : List String) (hfuel : Fuel tail fuel fuel') :
    R _ Eq (typeParamNames names fuel) (typeParamNames names fuel') := by
  induction fuel generalizing names fuel' with
  | zero => exact hR.unfuelled hfuel rfl
  | succ fuel ih =>
    obtain ⟨fuel', rfl, hless⟩ := hfuel.succ
    exact hR.after (hR.expectIdentifier _) fun _ => ite rfl (hR.fail _)
      (hR.after (hR.accept (by decide)) fun _ => ite rfl (ih _ hless) (hR.pure rfl))

theorem typeParams : R _ Eq typeParams typeParams := by
  refine hR.after (hR.accept (by decide)) fun _ => ite rfl ?_ (hR.pure rfl)
  exact hR.look fun _ _ hc => hR.after (hR.typeParamNames _ hc.length.add_one) fun _ =>
    hR.after (hR.expect _ _) fun _ => hR.pure rfl

/-! ## The grammar -/

section Grammar

variable {same : Prop} {nested nested' result result' : Parser ε TypeExpr}

theorem separated {p' : Parser ε α} (h : R α (Kept same) p p') (hm : m ≠ .rbrace) (hfuel : Fuel tail fuel fuel') :
    R _ (Kept same) (separated m p fuel) (separated m p' fuel') := by
  induction fuel generalizing fuel' with
  | zero => exact hR.unfuelled hfuel rfl
  | succ fuel ih =>
    obtain ⟨fuel', rfl, hless⟩ := hfuel.succ
    refine hR.bind h fun x x' hx => hR.after (hR.accept hm) fun _ => ite rfl ?_ ?_
    · exact hR.bind (ih hless) fun xs xs' hxs => hR.pure fun hsame => by rw [hx hsame, hxs hsame]
    · exact hR.pure fun hsame => by rw [hx hsame]

theorem separatedBy {p' : Parser ε α} (h : R α (Kept same) p p') (hm : m ≠ .rbrace) :
    R _ (Kept same) (separatedBy m p) (separatedBy m p') :=
  hR.look fun _ _ hc => hR.separated h hm hc.length.add_one

theorem questionMarks {type type' : TypeExpr} (h : Kept same type type') (hfuel : Fuel tail fuel fuel') :
    R _ (Kept same) (questionMarks type fuel) (questionMarks type' fuel') := by
  induction fuel generalizing type type' fuel' with
  | zero => exact hR.unfuelled hfuel rfl
  | succ fuel ih =>
    obtain ⟨fuel', rfl, hless⟩ := hfuel.succ
    refine hR.look fun c c' hc => ite ?_ (hR.take (fun _ => rfl) fun _ => ih (fun hsame => by rw [h hsame]) hless) (hR.pure h)
    have hmark := hc.atMark (m := .question) (by decide)
    have hkeyword := hc.questionKeyword
    rw [hmark] at hkeyword ⊢
    cases h : c'.atMark .question
    · rfl
    · rw [h, Bool.true_and, Bool.true_and] at hkeyword
      rw [hkeyword]

variable (h : R _ (Kept same) nested nested')

include h

theorem param : R _ (Kept same) (param nested) (param nested') := by
  refine hR.bind h fun t t' ht => hR.look fun c c' hc => ite hc.isWord ?_ ?_
  · exact hR.take (fun _ => rfl) fun _ => hR.pure fun hsame => by rw [ht hsame]
  · exact hR.pure fun hsame => by rw [ht hsame]

section Params

variable {acc acc' : Params TypeExpr}

omit hR h in
theorem keyword_names_eq (hacc : acc.outline = acc'.outline) : acc.keywords.map (·.1) = acc'.keywords.map (·.1) := by
  have hrequired := congrArg Params.Outline.requiredKeywords hacc
  have hoptional := congrArg Params.Outline.optionalKeywords hacc
  simp only [Params.outline] at hrequired hoptional
  simp only [Params.keywords, List.map_append, hrequired, hoptional]

omit hR h in
theorem hasKeywords_eq (hacc : acc.outline = acc'.outline) : hasKeywords acc = hasKeywords acc' := by
  have hempty := congrArg List.isEmpty (keyword_names_eq hacc)
  rw [List.isEmpty_map, List.isEmpty_map] at hempty
  rw [hasKeywords, hasKeywords, hempty]

theorem keywordParam (hacc : acc.outline = acc'.outline) :
    R _ (KeywordKept same) (keywordParam nested acc) (keywordParam nested' acc') := by
  refine hR.take (fun _ => rfl) fun t => hR.after (hR.expect _ _) fun _ => hR.bind (hR.param h) fun q q' hq =>
    ite ?_ (hR.fail _) (hR.pure ⟨rfl, fun hsame => by rw [hq hsame]⟩)
  have hnames := congrArg (List.any · (· == t.lexeme)) (keyword_names_eq hacc)
  simpa only [List.any_map, Function.comp_def] using hnames

omit hR h in
theorem isEmpty_concat (qs : List α) (q : α) : (qs ++ [q]).isEmpty = false := by
  cases qs <;> rfl

theorem paramItem (hgroups : GroupsKept same acc acc') :
    R _ (GroupsKept same) (paramItem nested acc) (paramItem nested' acc') := by
  obtain ⟨hacc, hkept⟩ := hgroups
  have hkeywords := hasKeywords_eq hacc
  have hkeyword := hR.keywordParam h hacc
  have hparam := hR.param h
  simp only [Params.outline, Params.Outline.mk.injEq] at hacc
  obtain ⟨hoptional, hrest, htrailing, hnames, hnames', hrestKeywords⟩ := hacc
  -- in every case a related parameter is added to the same group
  refine ite hrestKeywords (hR.fail _) (hR.after (hR.accept (by decide)) fun _ => ite rfl (hR.bind hparam fun q q' hq =>
    hR.pure ⟨?_, fun hsame => by rw [hkept hsame, hq hsame]⟩) ?_)
  · simp [Params.outline, *]
  refine hR.after (hR.accept (by decide)) fun _ => ite rfl (ite hrest (hR.fail _) (ite hkeywords (hR.fail _)
    (hR.bind hparam fun q q' hq => hR.pure ⟨?_, fun hsame => by rw [hkept hsame, hq hsame]⟩))) ?_
  · simp [Params.outline, *]
  refine hR.look fun c c' hc => ite hc.atKeyword (hR.bind hkeyword fun q q' hq =>
    hR.pure ⟨?_, fun hsame => by rw [hkept hsame, hq.2 hsame]⟩) ?_
  · simp [Params.outline, hq.1, *]
  change R _ _ (get >>= fun c : Cursor => if (c.atMark .question && c.atKeyword 1) = true then _ else _)
    (get >>= fun c : Cursor => if (c.atMark .question && c.atKeyword 1) = true then _ else _)
  refine hR.look fun c c' hc => ite hc.questionKeyword (hR.take (fun _ => rfl) fun _ => hR.bind hkeyword fun q q' hq =>
    hR.pure ⟨?_, fun hsame => by rw [hkept hsame, hq.2 hsame]⟩) ?_
  · simp [Params.outline, hq.1, *]
  refine ite hkeywords (hR.fail _) (hR.after (hR.accept (by decide)) fun _ => ite rfl (ite ?_ (hR.fail _)
    (hR.bind hparam fun q q' hq => hR.pure ⟨?_, fun hsame => by rw [hkept hsame, hq hsame]⟩)) (ite ?_
      (hR.bind hparam fun q q' hq => hR.pure ⟨?_, fun hsame => by rw [hkept hsame, hq hsame]⟩)
      (hR.bind hparam fun q q' hq => hR.pure ⟨?_, fun hsame => by rw [hkept hsame, hq hsame]⟩)))
  · rw [hrest, htrailing]
  · simp [Params.outline, isEmpty_concat, *]
  · rw [hrest, hoptional]
  · simp [Params.outline, isEmpty_concat, *]
  · simp [Params.outline, *]

theorem paramItems (hgroups : GroupsKept same acc acc') (hfuel : Fuel tail fuel fuel') :
    R _ (Kept same) (paramItems nested acc fuel) (paramItems nested' acc' fuel') := by
  induction fuel generalizing acc acc' fuel' with
  | zero => exact hR.unfuelled hfuel rfl
  | succ fuel ih =>
    obtain ⟨fuel', rfl, hless⟩ := hfuel.succ
    exact hR.bind (hR.paramItem h hgroups) fun _ _ hnext => hR.after (hR.accept (by decide)) fun _ =>
      ite rfl (ih hnext hless) (hR.pure hnext.2)

end Params

theorem params : R _ (Kept same) (params nested) (params nested') := by
  have hend {ps ps' : Params TypeExpr} (hps : Kept same ps ps') : R _ (Kept same)
      (do Parser.expect .rparen "Expected ')' after parameters"; return ps)
      (do Parser.expect .rparen "Expected ')' after parameters"; return ps') :=
    hR.after (hR.expect _ _) fun _ => hR.pure hps
  refine hR.after (hR.expect _ _) fun _ => hR.look fun c c' hc => ite (hc.atMark (by decide)) (hend fun _ => rfl) ?_
  exact hR.look fun _ _ hc => hR.bind (hR.paramItems h (refl ({} : Params TypeExpr)) hc.length.add_one) fun _ _ => hend

theorem optionalParams : R _ (Kept same) (optionalParams nested) (optionalParams nested') :=
  hR.look fun _ _ hc => ite (hc.atMark (by decide)) (hR.params h) (hR.pure fun _ => rfl)

theorem block : R _ (Kept same) (block nested) (block nested') := by
  refine hR.after (hR.accept (by decide)) fun optional => hR.after (hR.expect _ _) fun _ =>
    hR.bind (hR.optionalParams h) fun ps ps' hps => hR.after (hR.accept (by decide)) fun _ => ?_
  have hrest : R (Block TypeExpr) (Kept same)
      (do Parser.expect .arrow "Expected '->' in block type"; let result ← nested
          Parser.expect .rbrace "Expected '\x7d' to close block type"; return ⟨ps, result, !optional⟩)
      (do Parser.expect .arrow "Expected '->' in block type"; let result ← nested'
          Parser.expect .rbrace "Expected '\x7d' to close block type"; return ⟨ps', result, !optional⟩) :=
    hR.after (hR.expect _ _) fun _ => hR.bind h fun _ _ ht => hR.after (hR.expect _ _) fun _ =>
      hR.pure fun hsame => by rw [hps hsame, ht hsame]
  have hbinding := hR.after (hR.expect .colon "Expected ':' after 'self'") fun _ => hR.bind h fun _ _ _ =>
    hR.after (hR.expect .rbracket "Expected ']' after block self-type binding") fun _ => hrest
  refine ite rfl (hR.look fun c c' hc => ite (hc.kind_beq (by decide) (by decide)) ?_ ?_) hrest
  · exact hR.take (fun _ => rfl) fun _ => hbinding
  · exact hR.after (hR.fail _) fun _ => hbinding

theorem optionalBlock : R _ (Kept same) (optionalBlock nested) (optionalBlock nested') :=
  hR.look fun _ _ hc =>
    ite hc.atBlock (hR.bind (hR.block h) fun _ _ hb => hR.pure fun hsame => by rw [hb hsame]) (hR.pure fun _ => rfl)

theorem typeArgs : R _ (Kept same) (typeArgs nested) (typeArgs nested') := by
  refine hR.after (hR.accept (by decide)) fun _ => ite rfl ?_ (hR.pure fun _ => rfl)
  exact hR.bind (hR.separatedBy h (by decide)) fun _ _ hargs => hR.after (hR.expect _ _) fun _ => hR.pure hargs

theorem recordItems {r r' : List (Field TypeExpr) × Option TypeExpr} (hfields : FieldsKept same r r')
    (hfuel : Fuel tail fuel fuel') :
    R _ (Kept same) (recordItems nested r.1 r.2 fuel) (recordItems nested' r'.1 r'.2 fuel') := by
  induction fuel generalizing r r' fuel' with
  | zero => exact hR.unfuelled hfuel rfl
  | succ fuel ih =>
    obtain ⟨fuel', rfl, hless⟩ := hfuel.succ
    obtain ⟨⟨hkeys, hextra⟩, hkept⟩ := hfields
    have hnext (r r' : List (Field TypeExpr) × Option TypeExpr) (hr : FieldsKept same r r') : R _ (Kept same)
        (do if ← Parser.accept .comma then Parser.recordItems nested r.1 r.2 fuel else return .record r.1 r.2)
        (do if ← Parser.accept .comma then Parser.recordItems nested' r'.1 r'.2 fuel' else return .record r'.1 r'.2) :=
      hR.after (hR.accept (by decide)) fun _ => ite rfl (ih hr hless) (hR.pure fun hsame => by rw [hr.2 hsame])
    refine hR.after (hR.accept (by decide)) fun _ => ite rfl (ite hextra (hR.bind (hR.fail _) hnext) ?_) ?_
    · refine hR.bind h fun t t' ht => hR.bind (hR.pure ⟨⟨hkeys, rfl⟩, fun hsame => ?_⟩) hnext
      rw [hkept hsame, ht hsame]
    · refine hR.after (hR.accept (by decide)) fun optional => hR.after hR.fieldKey fun key =>
        ite ?_ (hR.bind (hR.fail _) hnext) ?_
      · have hany := congrArg (List.any · (Key.same · key)) hkeys
        simpa only [List.any_map, Function.comp_def] using hany
      · refine hR.bind h fun t t' ht => hR.bind (hR.pure ⟨⟨?_, hextra⟩, fun hsame => ?_⟩) hnext
        · simp only [List.map_append, hkeys, List.map_cons, List.map_nil]
        · rw [hkept hsame, ht hsame]

omit hR h in
/-- No field is found at the end. -/
theorem recordItems_end (fields : List (Field TypeExpr)) (extra : Option TypeExpr) (fuel : Nat) {c : Cursor}
    (hc : c.kind = .endOfText) : ∃ e, (Parser.recordItems nested fields extra fuel).run c = .error e := by
  have haccept (m : Mark) : (Parser.accept m : Parser ε Bool).run c = .ok (false, c) := by
    change (if c.atMark m = true then _ else _) = _
    rw [Cursor.atMark, hc, if_neg (by simp)]
  have hkeyword : c.atKeyword 0 = false := by
    obtain ⟨_ | ⟨t, ts⟩, m⟩ := c
    · rfl
    · change t.kind = _ at hc
      simp [Cursor.atKeyword, Token.isWord, hc]
  have hkey : ∃ e, (Parser.fieldKey : Parser ε Key).run c = .error e := by
    change ∃ e, StateT.run (if c.atKeyword 0 = true then _ else _ : Parser ε Key) c = _
    rw [hkeyword, if_neg Bool.false_ne_true, hc]
    exact ⟨_, rfl⟩
  cases fuel with
  | zero => exact ⟨_, rfl⟩
  | succ fuel =>
    obtain ⟨e, he⟩ := hkey
    exact ⟨e, (run_bind_of_ok (haccept _)).trans ((run_bind_of_ok (haccept _)).trans (run_bind_of_error he))⟩

theorem record : R _ (Kept same) (record nested) (record nested') := by
  have hend {t t' : TypeExpr} (ht : Kept same t t') : R _ (Kept same)
      (do Parser.expect .rbrace "Expected '\x7d' after record fields"; return t)
      (do Parser.expect .rbrace "Expected '\x7d' after record fields"; return t') :=
    hR.after (hR.expect _ _) fun _ => hR.pure ht
  have hnone : FieldsKept same ([], none) ([], none) := refl _
  refine hR.after (hR.expect _ _) fun _ => hR.unlessClosed (hend fun _ => rfl) ?_ ?_
  · exact hR.look fun _ _ hc => hR.bind (hR.recordItems h hnone hc.length.add_one) fun _ _ => hend
  · intro c hc
    obtain ⟨e, he⟩ := @recordItems_end ε nested [] none (c.tokens.length + 1) c hc
    exact ⟨e, (run_bind_of_ok rfl).trans (run_bind_of_error he)⟩

theorem tuple : R _ (Kept same) (tuple nested) (tuple nested') := by
  have hend {ts ts' : List TypeExpr} (hts : Kept same ts ts') : R _ (Kept same)
      (do Parser.expect .rbracket "Expected ']' after tuple elements"; return TypeExpr.tuple ts)
      (do Parser.expect .rbracket "Expected ']' after tuple elements"; return TypeExpr.tuple ts') :=
    hR.after (hR.expect _ _) fun _ => hR.pure fun hsame => by rw [hts hsame]
  exact hR.look fun _ _ hc =>
    ite (hc.atMark (by decide)) (hend fun _ => rfl) (hR.bind (hR.separatedBy h (by decide)) fun _ _ => hend)

theorem proc (hresult : R _ (Kept same) result result') : R _ (Kept same) (proc nested result) (proc nested' result') :=
  hR.bind (hR.optionalParams h) fun _ _ hps => hR.bind (hR.optionalBlock h) fun _ _ hb =>
    hR.after (hR.expect _ _) fun _ => hR.bind hresult fun _ _ ht =>
      hR.pure fun hsame => by rw [hps hsame, hb hsame, ht hsame]

end Grammar

/-! ## Scopes -/

section Scopes

variable {same : Prop} {names : List String} {resolve resolve' : String → Except ε (List (Capability TypeExpr))}
  {nested nested' result result' : Parser ε TypeExpr}
  (hlookup : ∀ names name, R _ (Kept same) (lookup ⟨names, resolve⟩ name) (lookup ⟨names, resolve'⟩ name))

include hlookup

theorem named (h : R _ (Kept same) nested nested') :
    R _ (Kept same) (named ⟨names, resolve⟩ nested) (named ⟨names, resolve'⟩ nested') := by
  refine hR.after hR.qualifiedName fun name => ite rfl ?_ (hR.bind (hR.typeArgs h) fun _ _ hargs => ite rfl ?_ ?_)
  · exact hR.look fun _ _ hc => ite (hc.atMark (by decide)) (hR.fail _) (hR.pure fun _ => rfl)
  · exact hR.bind (hlookup names name.bare) fun _ _ hms => hR.pure fun hsame => by rw [hms hsame]
  · exact hR.pure fun hsame => by rw [hargs hsame]

theorem primary (h : R _ (Kept same) nested nested') (hresult : R _ (Kept same) result result') :
    R _ (Kept same) (primary ⟨names, resolve⟩ nested result) (primary ⟨names, resolve'⟩ nested' result') := by
  refine hR.look fun c c' hc => ?_
  rcases hc.kind with hk | ⟨-, hk, hk'⟩
  case inr =>
    rw [hk, hk']
    exact hR.fail _
  rw [← hk]
  split
  · exact hR.take (fun _ => rfl) fun _ => hR.bind h fun _ _ ht => hR.after (hR.expect _ _) fun _ => hR.pure ht
  · exact hR.take (fun _ => rfl) fun _ => hR.tuple h
  · exact hR.record h
  · exact hR.take (fun _ => rfl) fun _ => hR.proc h hresult
  · exact hR.take (fun _ => rfl) fun _ => hR.pure fun _ => rfl
  · exact hR.take (fun _ => rfl) fun _ => hR.pure fun _ => rfl
  · exact hR.take (fun _ => rfl) fun _ => hR.singleton
  · exact hR.named hlookup h
  · exact hR.named hlookup h
  · split
    · exact hR.take (fun _ => rfl) fun _ => hR.pure fun _ => rfl
    · exact hR.fail _

omit hlookup in
theorem typeExpr_succ {scope scope' : Scope ε}
    (h : R _ (Kept same) (optionalType scope fuel) (optionalType scope' fuel')) :
    R _ (Kept same) (typeExpr scope (fuel + 1)) (typeExpr scope' (fuel' + 1)) := by
  have hjoined (join : List TypeExpr → TypeExpr) {ts ts' : List TypeExpr} (hts : Kept same ts ts') :
      R _ (Kept same) (Pure.pure (joined join ts)) (Pure.pure (joined join ts')) :=
    hR.pure fun hsame => by rw [hts hsame]
  rw [typeExpr, typeExpr]
  exact hR.bind (hR.separatedBy (hR.bind (hR.separatedBy h (by decide)) fun _ _ => hjoined _) (by decide)) fun _ _ =>
    hjoined _

theorem optionalType_succ
    (hnested : R _ (Kept same) (typeExpr ⟨names, resolve⟩ fuel) (typeExpr ⟨names, resolve'⟩ fuel'))
    (hresult : R _ (Kept same) (optionalType ⟨names, resolve⟩ fuel) (optionalType ⟨names, resolve'⟩ fuel')) :
    R _ (Kept same) (optionalType ⟨names, resolve⟩ (fuel + 1)) (optionalType ⟨names, resolve'⟩ (fuel' + 1)) := by
  rw [optionalType, optionalType]
  exact hR.bind (hR.primary hlookup hnested hresult) fun _ _ ht =>
    hR.look fun _ _ hc => hR.questionMarks ht hc.length.add_one

theorem typeExpr_optionalType (hfuel : Fuel tail fuel fuel') :
    R _ (Kept same) (typeExpr ⟨names, resolve⟩ fuel) (typeExpr ⟨names, resolve'⟩ fuel') ∧
      R _ (Kept same) (optionalType ⟨names, resolve⟩ fuel) (optionalType ⟨names, resolve'⟩ fuel') := by
  induction fuel generalizing fuel' with
  | zero =>
    constructor
    · rw [typeExpr]
      refine hR.exhausted fun htail => ?_
      rw [← hfuel.2 htail, typeExpr]
    · rw [optionalType]
      refine hR.exhausted fun htail => ?_
      rw [← hfuel.2 htail, optionalType]
  | succ fuel ih =>
    obtain ⟨fuel', rfl, hless⟩ := hfuel.succ
    exact ⟨hR.typeExpr_succ (ih hless).2, hR.optionalType_succ hlookup (ih hless).1 (ih hless).2⟩

theorem nestedType : R _ (Kept same) (nestedType ⟨names, resolve⟩) (nestedType ⟨names, resolve'⟩) :=
  hR.look fun _ _ hc => (hR.typeExpr_optionalType hlookup hc.length.twice).1

end Scopes

end Parts

/-! ## Whole texts -/

variable (hR : Congruence none R)

include hR

theorem expectEnd : R _ Eq expectEnd expectEnd := by
  refine hR.look fun c c' hc => ?_
  have hkind : c.kind = c'.kind := hc.kind.resolve_right fun h => absurd h.1 (by simp)
  rw [hc.lexeme, hkind]
  exact ite rfl (hR.pure rfl) (hR.fail _)

variable {same : Prop} {resolve resolve' : String → Except ε (List (Capability TypeExpr))}
  (hlookup : ∀ names name, R _ (Kept same) (lookup ⟨names, resolve⟩ name) (lookup ⟨names, resolve'⟩ name))

include hlookup

theorem wholeType (names : List String) : R _ (Kept same) (wholeType ⟨names, resolve⟩) (wholeType ⟨names, resolve'⟩) :=
  hR.bind (hR.nestedType hlookup) fun _ _ ht => hR.after hR.expectEnd fun _ => hR.pure ht

theorem wholeSignature (text : String) :
    R _ (Kept same) (wholeSignature resolve text) (wholeSignature resolve' text) :=
  hR.after hR.typeParams fun _ => hR.bind (hR.optionalParams (hR.nestedType hlookup)) fun _ _ hps =>
    hR.bind (hR.optionalBlock (hR.nestedType hlookup)) fun _ _ hb => hR.after (hR.expect _ _) fun _ =>
      hR.bind (hR.nestedType hlookup) fun _ _ ht => hR.after hR.expectEnd fun _ =>
        hR.pure fun hsame => by rw [hps hsame, hb hsame, ht hsame]

end Congruence

end Parser

end Conformance
