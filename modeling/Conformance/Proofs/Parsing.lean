import Conformance.Proofs.Congruence
import Conformance.Proofs.Layout

/-!
# Reading printed types back

A reader goes by the kinds and lexemes of the tokens ahead (`Cursor.faces`).  `Reads p i a o` says that from the tokens
`i` the reader `p` gives `a` and leaves the tokens `o`.  It composes along the combinators, and so every reader of the
grammar reads the rows that are printed for it.

What may follow a row is a matter of its place (`After`): a type is not followed by a mark that would go on with it, nor
by a label.  The fuel that the readers of nested types need is bounded by the number of tokens.
-/

namespace Conformance

/-! ## Tokens as a reader sees them -/

namespace Face

/-- A mark. -/
def ofMark (m : Mark) : Face := ⟨.mark m, String.ofList m.chars⟩

/-- A word. -/
def ofWord (s : String) : Face := ⟨Piece.wordKind s, s⟩

/-- Identifiers and keywords. -/
def isWord (f : Face) : Bool :=
  match f.kind with
  | .identifier | .keyword _ => true
  | _ => false

/-- The kind of the token `n` places ahead. -/
def kindAt (fs : List Face) (n : Nat) : TokenKind := (fs[n]?.map Face.kind).getD .endOfText

/-- Is the token `n` places ahead a word with a colon after it? -/
def labelAt (fs : List Face) (n : Nat) : Bool :=
  (fs[n]?.map isWord).getD false && kindAt fs (n + 1) == .mark .colon

variable {f g : Face} {fs : List Face} {s : String} {m : Mark}

@[simp] theorem kindAt_zero : kindAt (f :: fs) 0 = f.kind := rfl

@[simp] theorem kindAt_succ (n : Nat) : kindAt (f :: fs) (n + 1) = kindAt fs n := rfl

@[simp] theorem labelAt_zero : labelAt (f :: fs) 0 = (f.isWord && kindAt fs 0 == .mark .colon) := rfl

@[simp] theorem labelAt_succ (n : Nat) : labelAt (f :: fs) (n + 1) = labelAt fs n := rfl

@[simp] theorem kind_ofMark : (ofMark m).kind = .mark m := rfl

@[simp] theorem isWord_ofMark : (ofMark m).isWord = false := rfl

@[simp] theorem kind_ofWord : (ofWord s).kind = Piece.wordKind s := rfl

theorem wordKind_ne_mark (s : String) (m : Mark) : Piece.wordKind s ≠ .mark m := by
  unfold Piece.wordKind
  cases Keyword.ofText? s <;> nofun

theorem kindAt_word_ne : kindAt (ofWord s :: fs) 0 ≠ .mark m := wordKind_ne_mark s m

theorem kindAt_mark_ne {m' : Mark} (h : m ≠ m') : kindAt (ofMark m :: fs) 0 ≠ .mark m' := fun heq => h (TokenKind.mark.inj heq)

theorem wordKind_ne_end (s : String) : Piece.wordKind s ≠ .endOfText := by
  unfold Piece.wordKind
  cases Keyword.ofText? s <;> nofun

@[simp] theorem isWord_ofWord : (ofWord s).isWord = true := by
  unfold isWord ofWord Piece.wordKind
  cases Keyword.ofText? s <;> rfl

theorem wordKind_of_isName {s : String} (hs : Text.isName s = true) : Piece.wordKind s = .identifier := by
  rw [Piece.wordKind, (Text.isName_iff.1 hs).2]
  rfl

theorem wordKind_keyword (k : Keyword) : Piece.wordKind k.text = .keyword k := by
  rw [Piece.wordKind, Keyword.ofText?_text]
  rfl

end Face

namespace Piece

variable {ps qs : List Piece} {s : String} {m : Mark}

@[simp] theorem faces_nil : faces [] = [] := rfl

@[simp] theorem faces_append : faces (ps ++ qs) = faces ps ++ faces qs := List.filterMap_append

@[simp] theorem faces_blank : faces (blank :: ps) = faces ps := rfl

@[simp] theorem faces_mark : faces (mark m :: ps) = .ofMark m :: faces ps := rfl

@[simp] theorem faces_word : faces (word s :: ps) = .ofWord s :: faces ps := by
  change ⟨wordKind s, String.ofList s.toList⟩ :: faces ps = _
  rw [String.ofList_toList]
  rfl

@[simp] theorem faces_label : faces (label s ++ ps) = .ofWord s :: .ofMark .colon :: faces ps := by
  rw [label, List.cons_append, faces_word]
  rfl

theorem faces_intercalate (sep : List Piece) (rows : List (List Piece)) :
    faces (sep.intercalate rows) = (faces sep).intercalate (rows.map faces) := by
  induction rows with
  | nil => rfl
  | cons row rows ih =>
    cases rows with
    | nil => rw [List.map_singleton, List.intercalate_singleton, List.intercalate_singleton]
    | cons row' rows =>
      rw [List.map_cons, List.map_cons, List.intercalate_cons_cons, List.intercalate_cons_cons, faces_append, faces_append,
        ih, List.map_cons]

end Piece

namespace Parser

open Face Piece

variable {ε α β : Type}

/-- The tokens ahead, as a reader sees them. -/
def Cursor.faces (c : Cursor) : List Face := c.tokens.map Token.face

namespace Cursor

variable {c : Cursor}

theorem kind_eq_kindAt (n : Nat) : c.kind n = kindAt c.faces n := by
  rw [kind, kindAt, faces, List.getElem?_map, Option.map_map]
  rfl

theorem atMark_eq (m : Mark) : c.atMark m = (kindAt c.faces 0 == .mark m) := by
  rw [atMark, kind_eq_kindAt]

theorem atKeyword_eq (n : Nat) : c.atKeyword n = labelAt c.faces n := by
  rw [atKeyword, labelAt, faces, List.getElem?_map, Option.map_map, kind_eq_kindAt, faces]
  rfl

theorem length_tokens : c.tokens.length = c.faces.length := (List.length_map _).symm

theorem face_token {f : Face} {fs : List Face} (h : c.faces = f :: fs) : c.token.face = f := by
  obtain ⟨tokens, mentions⟩ := c
  cases tokens with
  | nil => cases h
  | cons t ts => exact (List.cons.inj h).1

theorem isWord_token {f : Face} {fs : List Face} (h : c.faces = f :: fs) : c.token.isWord = f.isWord := by
  rw [← face_token h]
  rfl

theorem faces_next {f : Face} {fs : List Face} (h : c.faces = f :: fs) (hf : f.kind ≠ .endOfText) : c.next.faces = fs := by
  have hkind : c.kind ≠ .endOfText := by rwa [kind_eq_kindAt, h, kindAt_zero]
  rw [next_eq hkind, faces, List.map_tail, ← faces, h]
  rfl

end Cursor

/-- From the tokens `i` the reader gives `a` and leaves `o`. -/
def Reads (p : Parser ε α) (i : List Face) (a : α) (o : List Face) : Prop :=
  ∀ c : Cursor, c.faces = i → ∃ c' : Cursor, c'.faces = o ∧ p.run c = .ok (a, c')

section Combinators

variable {p : Parser ε α} {f : α → Parser ε β} {a : α} {b : β} {i j o : List Face}

theorem Reads.bind (hp : Reads p i a j) (hf : Reads (f a) j b o) : Reads (p >>= f) i b o := by
  intro c hc
  obtain ⟨c₁, hc₁, hrun⟩ := hp c hc
  obtain ⟨c₂, hc₂, hrun₂⟩ := hf c₁ hc₁
  exact ⟨c₂, hc₂, (run_bind_of_ok hrun).trans hrun₂⟩

theorem reads_pure (a : α) (i : List Face) : Reads (pure a : Parser ε α) i a i := fun c hc => ⟨c, hc, rfl⟩

theorem reads_get_bind {f : Cursor → Parser ε β} (h : ∀ c : Cursor, c.faces = i → Reads (f c) i b o) :
    Reads (get >>= f) i b o :=
  fun c hc => h c hc c hc

theorem Reads.ite_pos {cond : Prop} [Decidable cond] {q : Parser ε α} (h : cond) (hp : Reads p i a o) :
    Reads (if cond then p else q) i a o := by
  rwa [if_pos h]

theorem Reads.ite_neg {cond : Prop} [Decidable cond] {q : Parser ε α} (h : ¬ cond) (hp : Reads p i a o) :
    Reads (if cond then q else p) i a o := by
  rwa [if_neg h]

theorem reads_advance_bind {f : Face} {k : Token → Parser ε β} (hf : f.kind ≠ .endOfText)
    (h : ∀ t : Token, t.face = f → Reads (k t) i b o) : Reads (advance >>= k) (f :: i) b o := by
  intro c hc
  have hne : c.kind ≠ .endOfText := by rwa [Cursor.kind_eq_kindAt, hc, kindAt_zero]
  obtain ⟨c', hc', hrun⟩ := h c.token (Cursor.face_token hc) c.next (Cursor.faces_next hc hf)
  exact ⟨c', hc', (run_bind_of_ok (run_advance hne)).trans hrun⟩

theorem reads_accept (m : Mark) (i : List Face) : Reads (accept m : Parser ε Bool) (ofMark m :: i) true i := by
  intro c hc
  refine ⟨c.next, Cursor.faces_next hc nofun, ?_⟩
  have hmark : c.atMark m = true := by rw [Cursor.atMark_eq, hc, kindAt_zero, kind_ofMark, beq_self_eq_true]
  exact if_pos hmark

theorem reads_accept_of_ne {m : Mark} (h : kindAt i 0 ≠ .mark m) : Reads (accept m : Parser ε Bool) i false i := by
  intro c hc
  refine ⟨c, hc, ?_⟩
  have hmark : ¬ c.atMark m = true := by rw [Cursor.atMark_eq, hc, beq_iff_eq]; exact h
  exact if_neg hmark

theorem reads_if_accept {p q : Parser ε α} (m : Mark) (hp : Reads p i a o) :
    Reads (accept m >>= fun x => if x = true then p else q) (ofMark m :: i) a o :=
  (reads_accept m i).bind hp

theorem reads_unless_accept {p q : Parser ε α} {m : Mark} (h : kindAt i 0 ≠ .mark m) (hq : Reads q i a o) :
    Reads (accept m >>= fun x => if x = true then p else q) i a o :=
  (reads_accept_of_ne h).bind hq

theorem reads_expect (m : Mark) (message : String) (i : List Face) :
    Reads (expect m message : Parser ε Unit) (ofMark m :: i) () i :=
  (reads_accept m i).bind (reads_pure () i)

theorem reads_expectIdentifier {s : String} (hs : Text.isName s = true) (message : String) (i : List Face) :
    Reads (expectIdentifier message : Parser ε String) (ofWord s :: i) s i := by
  refine reads_get_bind fun c hc => ?_
  have hkind : (c.kind == .identifier) = true := by
    rw [Cursor.kind_eq_kindAt, hc, kindAt_zero, kind_ofWord, wordKind_of_isName hs, beq_self_eq_true]
  refine .ite_pos hkind (reads_advance_bind (wordKind_ne_end s) fun t ht => ?_)
  have hlexeme : t.lexeme = s := congrArg Face.lexeme ht
  rw [hlexeme]
  exact reads_pure s i

end Combinators

/-! ## What may follow -/

/-- What follows begins with none of the marks, and with no label. -/
structure After (marks : List Mark) (rest : List Face) : Prop where
  mark : ∀ m ∈ marks, kindAt rest 0 ≠ .mark m
  label : labelAt rest 0 = false

/-- The marks that go on with a qualified name. -/
def nameMarks : List Mark := [.colonColon, .dot]

/-- The marks that do not follow a type, if it can have question marks after it. -/
def primaryMarks : List Mark := .lbracket :: .colon :: nameMarks

/-- The marks that do not follow a type with its question marks. -/
def partMarks : List Mark := .question :: primaryMarks

/-- The marks that do not follow an alternative. -/
def alternativeMarks : List Mark := .ampersand :: partMarks

/-- The marks that do not follow a type. -/
def typeMarks : List Mark := .pipe :: alternativeMarks

section After

variable {marks : List Mark} {rest : List Face}

theorem After.tail {m : Mark} (h : After (m :: marks) rest) : After marks rest :=
  ⟨fun m' hm' => h.mark m' (List.mem_cons_of_mem _ hm'), h.label⟩

theorem after_mark {m : Mark} (hm : m ∉ marks) (rest : List Face) : After marks (ofMark m :: rest) := by
  refine ⟨fun m' hm' heq => ?_, rfl⟩
  cases heq
  exact hm hm'

theorem after_word (s : String) (hrest : kindAt rest 0 ≠ .mark .colon) : After marks (ofWord s :: rest) := by
  refine ⟨fun m _ => wordKind_ne_mark s m, ?_⟩
  rw [labelAt_zero, beq_eq_false_iff_ne.2 hrest, Bool.and_false]

theorem after_final : After marks [Face.final] := ⟨fun _ _ => nofun, rfl⟩

end After

/-! ## Rows with a mark between them -/

section Separated

variable {p : Parser ε α} {m : Mark} {marks : List Mark} {row : α → List Face} {rest : List Face}

theorem length_le_intercalate (m : Mark) (rows : List (List Face)) :
    rows.length ≤ ([ofMark m].intercalate rows).length + 1 := by
  induction rows with
  | nil => exact Nat.zero_le _
  | cons r rows ih =>
    cases rows with
    | nil => exact Nat.le_add_left _ _
    | cons r' rows =>
      rw [List.intercalate_cons_cons, List.length_append, List.length_append, List.length_cons]
      simp only [List.length_singleton]
      omega

theorem reads_separated {xs : List α} (hxs : xs ≠ []) (hm : m ∉ marks) (hrest : After (m :: marks) rest)
    (hp : ∀ x ∈ xs, ∀ o, After marks o → Reads p (row x ++ o) x o) {fuel : Nat} (hfuel : xs.length ≤ fuel) :
    Reads (separated m p fuel) ([ofMark m].intercalate (xs.map row) ++ rest) xs rest := by
  induction xs generalizing fuel with
  | nil => exact absurd rfl hxs
  | cons x xs ih =>
    obtain ⟨fuel, rfl⟩ : ∃ k, fuel = k + 1 := ⟨fuel - 1, by rw [List.length_cons] at hfuel; omega⟩
    have hx := hp x List.mem_cons_self
    cases xs with
    | nil =>
      rw [List.map_singleton, List.intercalate_singleton]
      exact (hx rest hrest.tail).bind
        ((reads_accept_of_ne (hrest.mark m List.mem_cons_self)).bind (reads_pure [x] rest))
    | cons y ys =>
      have hys := ih (List.cons_ne_nil _ _) (fun z hz => hp z (List.mem_cons_of_mem _ hz)) (Nat.le_of_succ_le_succ hfuel)
      rw [List.map_cons, List.map_cons, List.intercalate_cons_cons, List.append_assoc, List.append_assoc,
        List.singleton_append, ← List.map_cons]
      exact (hx _ (after_mark hm _)).bind ((reads_accept m _).bind (hys.bind (reads_pure (x :: y :: ys) rest)))

theorem reads_separatedBy_one {i : List Face} {a : α} (hp : Reads p i a rest) (hrest : kindAt rest 0 ≠ .mark m) :
    Reads (separatedBy m p) i [a] rest :=
  reads_get_bind fun _ _ => hp.bind (reads_unless_accept hrest (reads_pure [a] rest))

theorem reads_separatedBy {xs : List α} (hxs : xs ≠ []) (hm : m ∉ marks) (hrest : After (m :: marks) rest)
    (hp : ∀ x ∈ xs, ∀ o, After marks o → Reads p (row x ++ o) x o) :
    Reads (separatedBy m p) ([ofMark m].intercalate (xs.map row) ++ rest) xs rest := by
  refine reads_get_bind fun c hc => reads_separated hxs hm hrest hp ?_
  have hlength := length_le_intercalate m (xs.map row)
  rw [List.length_map] at hlength
  rw [Cursor.length_tokens, hc, List.length_append]
  omega

end Separated

theorem faces_commas (rows : List (List Piece)) :
    faces (commas rows) = [ofMark .comma].intercalate (rows.map faces) :=
  faces_intercalate _ rows

theorem exists_commas_cons (row : List Piece) (rows : List (List Piece)) :
    ∃ qs, commas (row :: rows) = row ++ qs := by
  cases rows with
  | nil => exact ⟨[], by rw [commas, List.intercalate_singleton, List.append_nil]⟩
  | cons row' rows => exact ⟨_, by rw [commas, List.intercalate_cons_cons, List.append_assoc]⟩

theorem faces_commas_cons (row : List Piece) {rows : List (List Piece)} (hrows : rows ≠ []) :
    faces (commas (row :: rows)) = faces row ++ ofMark .comma :: faces (commas rows) := by
  obtain ⟨row', rows, rfl⟩ := List.exists_cons_of_ne_nil hrows
  rw [commas, List.intercalate_cons_cons, ← commas, List.append_assoc, faces_append]
  rfl

/-! ## Qualified names -/

theorem reads_nameParts {rest : List Face} (hrest : After nameMarks rest) {parts : List (Mark × String)}
    (hparts : ∀ p ∈ parts, Spelling.isLink p.1 = true ∧ Text.isName p.2 = true) (q : QualifiedName) {fuel : Nat}
    (hfuel : parts.length < fuel) :
    Reads (nameParts q fuel : Parser ε QualifiedName)
      (faces (parts.flatMap fun p => [.mark p.1, .word p.2]) ++ rest) (parts.foldl Spelling.extend q) rest := by
  induction parts generalizing q fuel with
  | nil =>
    obtain ⟨fuel, rfl⟩ : ∃ k, fuel = k + 1 := ⟨fuel - 1, by omega⟩
    refine reads_get_bind fun c hc => .ite_neg ?_ (reads_pure q rest)
    have hcolons := hrest.mark .colonColon (by decide)
    have hdot := hrest.mark .dot (by decide)
    simp [Cursor.atMark_eq, hc, hcolons, hdot]
  | cons p parts ih =>
    obtain ⟨fuel, rfl⟩ : ∃ k, fuel = k + 1 := ⟨fuel - 1, by omega⟩
    obtain ⟨hlink, hname⟩ := hparts p List.mem_cons_self
    have hrest' := ih (fun p' hp' => hparts p' (List.mem_cons_of_mem _ hp')) (Spelling.extend q p)
      (Nat.lt_of_succ_lt_succ hfuel)
    simp only [List.flatMap_cons, List.cons_append, List.nil_append, faces_mark, faces_word]
    refine reads_get_bind fun c hc => .ite_pos ?_ ?_
    · simp only [Spelling.isLink] at hlink
      simpa [Cursor.atMark_eq, Cursor.kind_eq_kindAt, hc, wordKind_of_isName hname] using hlink
    · refine reads_advance_bind nofun fun t ht => reads_advance_bind (wordKind_ne_end p.2) fun t' ht' => ?_
      have hmark : t.lexeme = String.ofList p.1.chars := congrArg Face.lexeme ht
      have hpart : t'.lexeme = p.2 := congrArg Face.lexeme ht'
      rw [hmark, hpart]
      exact hrest'

theorem reads_qualifiedName {sp : Spelling} (hsp : sp.Valid) {rest : List Face} (hrest : After nameMarks rest) :
    Reads (qualifiedName : Parser ε QualifiedName) (faces sp.pieces ++ rest) sp.qualified rest := by
  have hfirst : Reads (expectIdentifier "Expected type name" >>= fun first => get >>= fun c =>
      nameParts ⟨first, sp.rooted, first⟩ (c.tokens.length + 1) : Parser ε QualifiedName)
      (ofWord sp.first :: (faces (sp.parts.flatMap fun p => [.mark p.1, .word p.2]) ++ rest)) sp.qualified rest := by
    refine (reads_expectIdentifier hsp.1 _ _).bind (reads_get_bind fun c hc => reads_nameParts hrest hsp.2 _ ?_)
    have hlength : sp.parts.length ≤ (faces (sp.parts.flatMap fun p => [.mark p.1, .word p.2])).length := by
      induction sp.parts with
      | nil => exact Nat.le_refl _
      | cons p parts ih =>
        simp only [List.flatMap_cons, List.cons_append, List.nil_append, faces_mark, faces_word,
          List.length_cons]
        omega
    rw [Cursor.length_tokens, hc, List.length_append]
    omega
  rw [Spelling.pieces, faces_append, faces_word, List.append_assoc]
  unfold qualifiedName
  by_cases hrooted : sp.rooted = true
  · rw [hrooted] at hfirst
    rw [if_pos hrooted]
    exact (reads_accept .colonColon _).bind hfirst
  · rw [Bool.not_eq_true] at hrooted
    rw [hrooted] at hfirst
    rw [hrooted, if_neg Bool.false_ne_true]
    exact (reads_accept_of_ne kindAt_word_ne).bind hfirst

/-! ## Types inside others -/

/-- No colon makes the row a label. -/
def Unlabelled (fs : List Face) : Prop := ∀ rest, kindAt rest 0 ≠ .mark .colon → labelAt (fs ++ rest) 0 = false

/-- The reader gives the type from its row, wherever a type may stand. -/
structure Legible (nested : Parser ε TypeExpr) (ps : List Piece) (t : TypeExpr) : Prop where
  phrase : Phrase ps t.render.toList
  unlabelled : Unlabelled (faces ps)
  reads : ∀ rest, After typeMarks rest → Reads nested (faces ps ++ rest) t rest

end Parser

/-- A type does not begin with a mark that types do not begin with. -/
theorem Phrase.kindAt_ne {ps : List Piece} {cs : List Char} (h : Phrase ps cs) {m : Mark}
    (hm : (Piece.mark m).opens = false) (rest : List Face) : Face.kindAt (Piece.faces ps ++ rest) 0 ≠ .mark m := by
  obtain ⟨p, hp, hopens⟩ := h.opens
  obtain ⟨qs, rfl⟩ : ∃ qs, ps = p :: qs := by
    cases ps with
    | nil => cases hp
    | cons q qs => cases hp; exact ⟨qs, rfl⟩
  cases p with
  | blank => cases hopens
  | mark m' =>
    rintro heq
    cases heq
    rw [hm] at hopens
    cases hopens
  | word s => exact Face.wordKind_ne_mark s m
  | integer n => nofun
  | string s => nofun
  | symbol s => nofun

end Conformance
