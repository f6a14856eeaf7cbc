import Conformance.Proofs.Lexing
import Conformance.Proofs.Reading

/-!
# The pieces of a printed type

What a type or a signature is printed as is a row of pieces that fit (`Segment`).  The row of a type is put together
from those of the types in it, and begins and ends in a way that lets it stand wherever a type may (`Phrase`).

Everything here is a function of `spell`, which gives the rows of the types inside.
-/

namespace Conformance

variable {s : String} {α : Type} {f : α → List Piece} {xs : List α} {sp : Spelling}

namespace Piece

/-- May a type begin with the piece? -/
def opens : Piece → Bool
  | word _ | integer _ | string _ | symbol _ => true
  | mark m => [Mark.lparen, .lbracket, .lbrace, .caret, .colonColon].contains m
  | blank => false

/-- May a type end with the piece? -/
def closes : Piece → Bool
  | word _ | integer _ | string _ | symbol _ => true
  | mark m => [Mark.rparen, .rbracket, .rbrace, .question].contains m
  | blank => false

/-- Blanks, and the marks that anything may follow. -/
def isFree : Piece → Bool
  | blank => true
  | mark m => m != .star && m != .colon
  | _ => false

theorem fits_of_closes {p q : Piece} (hp : p.closes = true) (hq : q.isGap = true) : p.Fits q := by
  refine ⟨fun _ => hq, ?_, ?_⟩ <;> rintro rfl <;> cases hp

theorem fits_of_isFree {p : Piece} (hp : p.isFree = true) (q : Piece) : p.Fits q := by
  refine ⟨fun hwordy => ?_, ?_, ?_⟩
  · cases p <;> cases hwordy <;> cases hp
  · rintro rfl
    cases hp
  · rintro rfl
    cases hp

theorem star_fits {q : Piece} (hq : q.opens = true) : (mark .star).Fits q := by
  refine ⟨fun h => (nomatch h), fun _ => ?_, fun h => (nomatch h)⟩
  constructor <;> rintro rfl <;> cases hq

theorem valid_of_isGap {p : Piece} (hp : p.isGap = true) : p.Valid := by
  cases p <;> cases hp <;> trivial

theorem isGap_of_isFree {p : Piece} (hp : p.isFree = true) : p.isGap = true := by
  cases p <;> first | rfl | cases hp

end Piece

/-! ## Segments -/

/-- A row of fitting pieces that something other than a word can follow, and its characters. -/
structure Segment (ps : List Piece) (cs : List Char) : Prop where
  text : Piece.text ps = cs
  valid : ∀ p ∈ ps, p.Valid
  fits : ps.IsChain Piece.Fits
  closes : ∃ p, ps.getLast? = some p ∧ p.closes = true

/-- A segment that a type may be written with. -/
structure Phrase (ps : List Piece) (cs : List Char) : Prop extends Segment ps cs where
  opens : ∃ p, ps.head? = some p ∧ p.opens = true

namespace Segment

variable {ps qs : List Piece} {cs ds : List Char} {p : Piece}

theorem single (hp : p.Valid) (hcloses : p.closes = true) : Segment [p] p.chars where
  text := List.flatMap_singleton ..
  valid := List.forall_mem_singleton.2 hp
  fits := List.isChain_singleton p
  closes := ⟨p, rfl, hcloses⟩

theorem append (h : Segment ps cs) (h' : Segment qs ds) (hgap : ∃ q, qs.head? = some q ∧ q.isGap = true) :
    Segment (ps ++ qs) (cs ++ ds) where
  text := by rw [Piece.text, List.flatMap_append, ← Piece.text, ← Piece.text, h.text, h'.text]
  valid := List.forall_mem_append.2 ⟨h.valid, h'.valid⟩
  fits := by
    refine h.fits.append h'.fits fun x hx y hy => ?_
    obtain ⟨p, hp, hcloses⟩ := h.closes
    obtain ⟨q, hq, hgap⟩ := hgap
    rw [hp] at hx
    rw [hq] at hy
    cases hx
    cases hy
    exact Piece.fits_of_closes hcloses hgap
  closes := by
    obtain ⟨q, hq, hcloses⟩ := h'.closes
    exact ⟨q, by rw [List.getLast?_append, hq, Option.some_or], hcloses⟩

theorem cons_of_fits (hp : p.Valid) (h : Segment ps cs) (hfits : ∀ q, ps.head? = some q → p.Fits q) :
    Segment (p :: ps) (p.chars ++ cs) where
  text := by rw [Piece.text, List.flatMap_cons, ← Piece.text, h.text]
  valid := List.forall_mem_cons.2 ⟨hp, h.valid⟩
  fits := List.isChain_cons.2 ⟨fun q hq => hfits q hq, h.fits⟩
  closes := by
    obtain ⟨q, hq, hcloses⟩ := h.closes
    exact ⟨q, by rw [List.getLast?_cons, hq]; rfl, hcloses⟩

theorem cons (hp : p.isFree = true) (h : Segment ps cs) : Segment (p :: ps) (p.chars ++ cs) :=
  h.cons_of_fits (Piece.valid_of_isGap (Piece.isGap_of_isFree hp)) fun q _ => Piece.fits_of_isFree hp q

/-- A mark that closes goes after any segment. -/
theorem close (h : Segment ps cs) (m : Mark) (hm : (Piece.mark m).closes = true) :
    Segment (ps ++ [.mark m]) (cs ++ m.chars) :=
  h.append (single trivial hm) ⟨_, rfl, rfl⟩

/-- A word goes before a blank. -/
theorem word (hs : Text.isWord s = true) : Segment [.word s] s.toList := single hs rfl

theorem prepend (h : Segment ps cs) (sep : List Piece) (hsep : ∀ p ∈ sep, p.isFree = true) :
    Segment (sep ++ ps) (Piece.text sep ++ cs) := by
  induction sep with
  | nil => exact h
  | cons p sep ih =>
    rw [Piece.text, List.flatMap_cons, List.append_assoc]
    exact (ih fun q hq => hsep q (List.mem_cons_of_mem _ hq)).cons (hsep p List.mem_cons_self)

/-- Segments one after the other, with something between them. -/
theorem join (h : Segment ps cs) (sep : List Piece) (hsep : ∀ p ∈ sep, p.isFree = true) (hne : sep ≠ [])
    (h' : Segment qs ds) : Segment (ps ++ sep ++ qs) (cs ++ Piece.text sep ++ ds) := by
  rw [List.append_assoc, List.append_assoc]
  refine h.append (h'.prepend sep hsep) ?_
  obtain ⟨p, sep, rfl⟩ := List.exists_cons_of_ne_nil hne
  exact ⟨p, rfl, Piece.isGap_of_isFree (hsep p List.mem_cons_self)⟩

theorem intercalate {sep : List Piece} {g : α → List Char} (hsep : ∀ p ∈ sep, p.isFree = true) (hne : sep ≠ [])
    (hxs : xs ≠ []) (h : ∀ x ∈ xs, Segment (f x) (g x)) :
    Segment (sep.intercalate (xs.map f)) ((Piece.text sep).intercalate (xs.map g)) := by
  induction xs with
  | nil => exact absurd rfl hxs
  | cons x xs ih =>
    have hx := h x List.mem_cons_self
    cases xs with
    | nil =>
      rw [List.map_singleton, List.map_singleton, List.intercalate_singleton, List.intercalate_singleton]
      exact hx
    | cons y ys =>
      simp only [List.map_cons, List.intercalate_cons_cons]
      exact hx.join sep hsep hne (ih (List.cons_ne_nil _ _) fun z hz => h z (List.mem_cons_of_mem _ hz))

end Segment

/-! ## How the types inside are printed -/

/-- A parameter of a list, by the group that it belongs to. -/
inductive Item (τ : Type) where
  | required (q : Param τ)
  | optional (q : Param τ)
  | rest (q : Param τ)
  | trailing (q : Param τ)
  | requiredKeyword (name : String) (q : Param τ)
  | optionalKeyword (name : String) (q : Param τ)
  | restKeywords (q : Param τ)

namespace Item

/-- The parameter itself. -/
def param {τ : Type} : Item τ → Param τ
  | required q | optional q | rest q | trailing q | requiredKeyword _ q | optionalKeyword _ q | restKeywords q => q

/-- The printed form of a parameter in a list. -/
def text : Item TypeExpr → String
  | required q | trailing q => q.text
  | optional q => "?" ++ q.text
  | rest q => "*" ++ q.text
  | requiredKeyword name q => name ++ ": " ++ q.text
  | optionalKeyword name q => "?" ++ name ++ ": " ++ q.text
  | restKeywords q => "**" ++ q.text

end Item

/-- The parameters of a list, group by group. -/
def Params.items {τ : Type} (p : Params τ) : List (Item τ) :=
  p.required.map .required ++ p.optional.map .optional ++ p.rest.toList.map .rest ++ p.trailing.map .trailing
    ++ p.requiredKeywords.map (fun kq => .requiredKeyword kq.1 kq.2)
    ++ p.optionalKeywords.map (fun kq => .optionalKeyword kq.1 kq.2) ++ p.restKeywords.toList.map .restKeywords

namespace TypeExpr

theorem renderAll_eq_map (ts : List TypeExpr) : renderAll ts = ts.map render := by
  induction ts with
  | nil => rw [renderAll, List.map_nil]
  | cons t ts ih => rw [renderAll, List.map_cons, ih]

/-- The printed form of a type inside another. -/
def grouped (t : TypeExpr) : String := if t.isCompound then "(" ++ t.render ++ ")" else t.render

theorem renderGrouped_eq_map (ts : List TypeExpr) : renderGrouped ts = ts.map grouped := by
  induction ts with
  | nil => rw [renderGrouped, List.map_nil]
  | cons t ts ih => rw [renderGrouped, List.map_cons, ih, grouped]

/-- The printed form of a field. -/
def fieldText (f : Field TypeExpr) : String := Field.render ⟨f.key, f.type.render, f.required⟩

theorem renderFields_eq_map (fields : List (Field TypeExpr)) : renderFields fields = fields.map fieldText := by
  induction fields with
  | nil => rw [renderFields, List.map_nil]
  | cons f fields ih => rw [renderFields, List.map_cons, ih, fieldText]

theorem renderExtra_eq_map (extra : Option TypeExpr) : renderExtra extra = extra.toList.map fun t => "**" ++ t.render := by
  cases extra <;> rw [renderExtra] <;> rfl

theorem renderParamList_eq_map (ps : List (Param TypeExpr)) :
    renderParamList ps = ps.map fun q => ⟨q.type.render, q.name⟩ := by
  induction ps with
  | nil => rw [renderParamList, List.map_nil]
  | cons q ps ih => rw [renderParamList, List.map_cons, ih]

theorem renderParam?_eq_map (p : Option (Param TypeExpr)) :
    renderParam? p = p.map fun q => ⟨q.type.render, q.name⟩ := by
  cases p <;> rw [renderParam?] <;> rfl

theorem renderKeywords_eq_map (ps : List (String × Param TypeExpr)) :
    renderKeywords ps = ps.map fun kq => (kq.1, ⟨kq.2.type.render, kq.2.name⟩) := by
  induction ps with
  | nil => rw [renderKeywords, List.map_nil]
  | cons kq ps ih => rw [renderKeywords, List.map_cons, ih]

theorem renderBlock_eq (b : Option (Block TypeExpr)) : renderBlock b = b.elim "" fun b => " " ++ b.text := by
  cases b <;> rw [renderBlock] <;> rfl

end TypeExpr

theorem Params.text_eq_items (p : Params TypeExpr) :
    p.text = "(" ++ commaSeparated (p.items.map Item.text) ++ ")" := by
  obtain ⟨required, optional, rest, trailing, requiredKeywords, optionalKeywords, restKeywords⟩ := p
  simp only [text, render, items, TypeExpr.renderParams, TypeExpr.renderParamList_eq_map, TypeExpr.renderParam?_eq_map,
    TypeExpr.renderKeywords_eq_map, List.map_append, List.map_map, Option.toList_map]
  rfl

/-! ## Rows of pieces -/

/-- Rows with commas between them. -/
def Piece.commas (rows : List (List Piece)) : List Piece := [mark .comma, blank].intercalate rows

/-- A row in parentheses, if the type is put in them inside another. -/
def Piece.grouped (t : TypeExpr) (ps : List Piece) : List Piece :=
  if t.isCompound then mark .lparen :: (ps ++ [mark .rparen]) else ps

/-- An arrow with blanks around it. -/
def Piece.arrow : List Piece := [blank, mark .arrow, blank]

/-- The pieces of a qualified name. -/
def Spelling.pieces (sp : Spelling) : List Piece :=
  (if sp.rooted then [.mark .colonColon] else []) ++
    .word sp.first :: sp.parts.flatMap fun p => [.mark p.1, .word p.2]

/-- The piece of a key. -/
def Key.piece : Key → Piece
  | int n => .integer n
  | str s => .string s
  | bool b => .word (if b then "True" else "False")

/-- The piece of a literal. -/
def Literal.piece : Literal → Piece
  | int n => .integer n
  | str s => .string s
  | bool b => .word (Keyword.truth b).text
  | symbol s => .symbol s

section Rows

variable (spell : TypeExpr → List Piece)

/-- The pieces of a parameter. -/
def Param.pieces (q : Param TypeExpr) : List Piece :=
  spell q.type ++ q.name.elim [] fun name => [.blank, .word name]

/-- The pieces of a keyword and the colon after it. -/
def Piece.label (name : String) : List Piece := [word name, mark .colon, blank]

/-- The pieces of a parameter in a list. -/
def Item.pieces : Item TypeExpr → List Piece
  | required q | trailing q => q.pieces spell
  | optional q => .mark .question :: q.pieces spell
  | rest q => .mark .star :: q.pieces spell
  | requiredKeyword name q => Piece.label name ++ q.pieces spell
  | optionalKeyword name q => .mark .question :: (Piece.label name ++ q.pieces spell)
  | restKeywords q => .mark .starStar :: q.pieces spell

/-- The pieces of a parameter list. -/
def Params.pieces (p : Params TypeExpr) : List Piece :=
  .mark .lparen :: (Piece.commas (p.items.map (Item.pieces spell)) ++ [.mark .rparen])

/-- The pieces of a block. -/
def Block.pieces (b : Block TypeExpr) : List Piece :=
  (if b.required then [] else [.mark .question]) ++
    .mark .lbrace :: .blank :: (b.params.pieces spell ++ Piece.arrow ++ spell b.result ++ [.blank, .mark .rbrace])

/-- The pieces of an optional block, after a blank. -/
def Piece.ofBlock (b : Option (Block TypeExpr)) : List Piece := b.elim [] fun b => blank :: b.pieces spell

/-- The pieces of the key of a field, with the mark after it. -/
def Piece.ofKey (k : Key) : List Piece :=
  match k with
  | .str s => if Text.isIdentifier s then Piece.label s else [k.piece, blank, mark .fatArrow, blank]
  | _ => [k.piece, blank, mark .fatArrow, blank]

/-- The pieces of a field, up to its type. -/
def Field.lead {τ : Type} (f : Field τ) : List Piece :=
  (if f.required then [] else [.mark .question]) ++ Piece.ofKey f.key

/-- The pieces of a field. -/
def Field.pieces (f : Field TypeExpr) : List Piece := f.lead ++ spell f.type

end Rows

/-! ## Names, keys and literals -/

namespace Spelling

/-- The spelling without `::` before it. -/
def relative (sp : Spelling) : Spelling := { sp with rooted := false }

theorem foldl_extend_rooted (parts : List (Mark × String)) (q : Parser.QualifiedName) (b : Bool) :
    parts.foldl extend { q with rooted := b } = { parts.foldl extend q with rooted := b } := by
  induction parts generalizing q with
  | nil => rfl
  | cons p parts ih =>
    rw [List.foldl_cons, List.foldl_cons]
    exact ih (extend q p)

theorem qualified_relative (sp : Spelling) : sp.relative.qualified = { sp.qualified with rooted := false } :=
  foldl_extend_rooted sp.parts ⟨sp.first, sp.rooted, sp.first⟩ false

theorem rooted_qualified (sp : Spelling) : sp.qualified.rooted = sp.rooted :=
  congrArg Parser.QualifiedName.rooted (foldl_extend_rooted sp.parts ⟨sp.first, sp.rooted, sp.first⟩ sp.rooted)

theorem toList_foldl_extend (parts : List (Mark × String)) (q : Parser.QualifiedName) :
    (parts.foldl extend q).bare.toList = q.bare.toList ++ parts.flatMap fun p => p.1.chars ++ p.2.toList := by
  induction parts generalizing q with
  | nil => simp
  | cons p parts ih =>
    rw [List.foldl_cons, ih]
    simp [extend]

theorem segment_parts (hs : Text.isWord s = true) {parts : List (Mark × String)}
    (hparts : ∀ p ∈ parts, isLink p.1 = true ∧ Text.isName p.2 = true) :
    Segment (.word s :: parts.flatMap fun p => [.mark p.1, .word p.2])
      (s.toList ++ parts.flatMap fun p => p.1.chars ++ p.2.toList) := by
  induction parts generalizing s with
  | nil => simpa using Segment.word hs
  | cons p parts ih =>
    obtain ⟨hlink, hname⟩ := hparts p List.mem_cons_self
    have hfree : (Piece.mark p.1).isFree = true := by
      revert hlink
      cases p.1 <;> decide
    have hrest := (ih (Text.isName_iff.1 hname).1 fun q hq => hparts q (List.mem_cons_of_mem _ hq)).cons hfree
    rw [List.flatMap_cons, List.flatMap_cons, List.append_assoc]
    exact (Segment.word hs).append hrest ⟨_, rfl, rfl⟩

theorem phrase (hsp : sp.Valid) : Phrase sp.pieces sp.qualified.text.toList := by
  have hsegment := segment_parts (Text.isName_iff.1 hsp.1).1 hsp.2
  have hbare : sp.qualified.bare.toList = _ := toList_foldl_extend sp.parts ⟨sp.first, sp.rooted, sp.first⟩
  rw [Parser.QualifiedName.text, rooted_qualified, pieces]
  rw [← hbare] at hsegment
  by_cases hrooted : sp.rooted = true
  · rw [if_pos hrooted, if_pos hrooted, String.toList_append]
    exact ⟨hsegment.cons rfl, _, rfl, rfl⟩
  · rw [if_neg hrooted, if_neg hrooted]
    exact ⟨hsegment, _, rfl, rfl⟩

end Spelling

theorem Phrase.single {p : Piece} (hp : p.Valid) (hopens : p.opens = true) (hcloses : p.closes = true) :
    Phrase [p] p.chars :=
  ⟨Segment.single hp hcloses, p, rfl, hopens⟩

theorem Phrase.keyword (k : Keyword) : Phrase [.word k.text] k.text.toList :=
  .single (Keyword.isWord_text k) rfl rfl

/-- The text has only ASCII characters. -/
def Text.Ascii (s : String) : Prop := ∀ c ∈ s.toList, c.toNat < 128

theorem Text.isWord_of_isIdentifier (h : isIdentifier s = true) (hs : Ascii s) : isWord s = true := by
  unfold Ascii at hs
  unfold isIdentifier at h
  unfold isWord
  cases hcs : s.toList with
  | nil =>
    rw [hcs] at h
    cases h
  | cons c cs =>
    rw [hcs] at h hs
    dsimp only at h ⊢
    rw [Bool.and_eq_true, List.all_eq_true] at h ⊢
    have hpart : ∀ d ∈ cs, isWordPart d = isIdentifierPart d := fun d hd => by
      rw [isIdentifierPart, if_pos (hs d (List.mem_cons_of_mem _ hd))]
    refine ⟨?_, fun d hd => (hpart d hd).trans (h.2 d hd)⟩
    rw [isIdentifierStart, if_pos (hs c List.mem_cons_self)] at h
    exact h.1

/-- The literal can be read from its printed form. -/
def Literal.Printable : Literal → Prop
  | str s => Text.isPlain s = true
  | symbol s => Text.isWord s = true
  | int _ | bool _ => True

/-- The key can be read from its printed form. -/
def Key.Printable : Key → Prop
  | str s => if Text.isIdentifier s then Text.Ascii s else Text.isPlain s = true
  | int _ => True
  | bool _ => False

instance (s : String) : Decidable (Text.Ascii s) := List.decidableBAll _ s.toList

instance (l : Literal) : Decidable l.Printable :=
  match l with
  | .str s => inferInstanceAs (Decidable (Text.isPlain s = true))
  | .symbol s => inferInstanceAs (Decidable (Text.isWord s = true))
  | .int _ | .bool _ => isTrue trivial

instance (k : Key) : Decidable k.Printable :=
  match k with
  | .str s => inferInstanceAs (Decidable (if Text.isIdentifier s then Text.Ascii s else Text.isPlain s = true))
  | .int _ => isTrue trivial
  | .bool _ => isFalse id

theorem Literal.valid_piece {l : Literal} (hshort : l.value.Short) (hl : l.Printable) : l.piece.Valid := by
  cases l with
  | int n => exact hshort
  | bool b => exact Keyword.isWord_text _
  | _ => exact hl

theorem Literal.phrase {l : Literal} (hl : l.piece.Valid) : Phrase [l.piece] l.render.toList := by
  cases l with
  | int n => exact .single hl rfl rfl
  | str s =>
    rw [render, Text.quoted, String.toList_ofList]
    exact .single hl rfl rfl
  | bool b => exact .keyword (.truth b)
  | symbol s =>
    rw [render, String.toList_append]
    exact .single hl rfl rfl

namespace Segment

variable {ps qs : List Piece} {cs ds : List Char}

theorem label {name : String} (hname : Text.isWord name = true) (h : Segment ps cs) :
    Segment (Piece.label name ++ ps) (name.toList ++ ": ".toList ++ cs) := by
  have hcolon : Segment (.mark .colon :: .blank :: ps) (":".toList ++ (" ".toList ++ cs)) := by
    refine (h.cons (p := .blank) rfl).cons_of_fits (p := .mark .colon) trivial fun q hq => ?_
    cases hq
    exact ⟨fun h => (nomatch h), fun h => (nomatch h), fun _ => rfl⟩
  rw [List.append_assoc]
  exact (word hname).append hcolon ⟨_, rfl, rfl⟩

theorem star (h : Phrase ps cs) : Segment (.mark .star :: ps) ('*' :: cs) := by
  obtain ⟨p, hp, hopens⟩ := h.opens
  refine h.toSegment.cons_of_fits (p := .mark .star) trivial fun q hq => ?_
  rw [hp] at hq
  cases hq
  exact Piece.star_fits hopens

/-- A blank and a closing mark. -/
theorem closeBlank (h : Segment ps cs) (m : Mark) (hm : (Piece.mark m).closes = true) :
    Segment (ps ++ [.blank, .mark m]) (cs ++ ' ' :: m.chars) :=
  h.append ((single (p := .mark m) trivial hm).cons (p := .blank) rfl) ⟨_, rfl, rfl⟩

end Segment

/-! ## Parameter lists and blocks -/

namespace Item

variable {τ : Type}

/-- The keyword of the parameter, if it has one. -/
def keyword? : Item τ → Option String
  | requiredKeyword name _ | optionalKeyword name _ => some name
  | _ => none

theorem map_param_items (p : Params τ) : p.items.map param = p.list := by
  simp only [Params.items, Params.list, Params.keywords, List.map_append, List.map_map, List.append_assoc]
  simp [Function.comp_def, param]

theorem param_mem {p : Params τ} {i : Item τ} (hi : i ∈ p.items) : i.param ∈ p.list := by
  rw [← map_param_items]
  exact List.mem_map_of_mem hi

theorem keyword_mem {p : Params τ} {i : Item τ} (hi : i ∈ p.items) {k : String} (hk : i.keyword? = some k) :
    ∃ q, (k, q) ∈ p.keywords := by
  simp only [Params.items, Params.keywords, List.mem_append, List.mem_map] at hi ⊢
  obtain (((((⟨q, hq, rfl⟩ | ⟨q, hq, rfl⟩) | ⟨q, hq, rfl⟩) | ⟨q, hq, rfl⟩) | ⟨kq, hkq, rfl⟩) | ⟨kq, hkq, rfl⟩) |
    ⟨q, hq, rfl⟩ := hi <;> cases hk
  · exact ⟨kq.2, .inl hkq⟩
  · exact ⟨kq.2, .inr hkq⟩

end Item

theorem toList_commaSeparated (f : α → String) (xs : List α) :
    (commaSeparated (xs.map f)).toList = (Piece.text [.mark .comma, .blank]).intercalate (xs.map fun x => (f x).toList) := by
  rw [commaSeparated, String.toList_intercalate, List.map_map]
  rfl

theorem Segment.commas {g : α → String} (hxs : xs ≠ []) (h : ∀ x ∈ xs, Segment (f x) (g x).toList) :
    Segment (Piece.commas (xs.map f)) (commaSeparated (xs.map g)).toList := by
  rw [toList_commaSeparated]
  exact Segment.intercalate (by decide) (by decide) hxs h

/-- Rows with commas between them, inside marks; there may be none. -/
theorem Segment.enclosed {g : α → String} (h : ∀ x ∈ xs, Segment (f x) (g x).toList) {m m' : Mark}
    (hm : (Piece.mark m).isFree = true) (hm' : (Piece.mark m').closes = true) :
    Segment (.mark m :: (Piece.commas (xs.map f) ++ [.mark m']))
      (m.chars ++ ((commaSeparated (xs.map g)).toList ++ m'.chars)) := by
  by_cases hxs : xs = []
  · subst hxs
    exact (Segment.single (p := .mark m') trivial hm').cons (p := .mark m) hm
  · exact ((Segment.commas hxs h).close m' hm').cons (p := .mark m) hm

section Rows

variable {spell : TypeExpr → List Piece} {N : TypeExpr → Prop} {t : TypeExpr}

theorem Param.phrase {q : Param TypeExpr} (htype : Phrase (spell q.type) q.type.render.toList)
    (hname : ∀ name ∈ q.name, Text.isWord name = true) : Phrase (q.pieces spell) q.text.toList := by
  obtain ⟨type, name⟩ := q
  cases name with
  | none =>
    rw [pieces, Option.elim_none, List.append_nil]
    exact htype
  | some name =>
    have hword := (Segment.word (hname name rfl)).cons (p := .blank) rfl
    have hsegment := htype.toSegment.append hword ⟨_, rfl, rfl⟩
    obtain ⟨p, hp, hopens⟩ := htype.opens
    refine ⟨?_, p, ?_, hopens⟩
    · have htext : Param.text ⟨type, some name⟩ = type.render ++ (" " ++ name) := String.append_assoc ..
      rw [htext, String.toList_append, String.toList_append]
      exact hsegment
    · rw [pieces, List.head?_append, hp]
      rfl

theorem Item.segment {i : Item TypeExpr} (htype : Phrase (spell i.param.type) i.param.type.render.toList)
    (hname : ∀ name ∈ i.param.name, Text.isWord name = true) (hkey : ∀ k ∈ i.keyword?, Text.isWord k = true) :
    Segment (i.pieces spell) i.text.toList := by
  have hphrase := Param.phrase htype hname
  cases i with
  | required q => exact hphrase.toSegment
  | trailing q => exact hphrase.toSegment
  | optional q =>
    rw [text, String.toList_append]
    exact hphrase.toSegment.cons (p := .mark .question) rfl
  | rest q =>
    rw [text, String.toList_append]
    exact Segment.star hphrase
  | requiredKeyword name q =>
    rw [text, String.toList_append, String.toList_append]
    exact hphrase.toSegment.label (hkey name rfl)
  | optionalKeyword name q =>
    rw [text, String.toList_append, String.toList_append, String.toList_append]
    have hlabel := (hphrase.toSegment.label (hkey name rfl)).cons (p := .mark .question) rfl
    simpa [pieces, param, Piece.chars, Mark.chars] using hlabel
  | restKeywords q =>
    rw [text, String.toList_append]
    exact hphrase.toSegment.cons (p := .mark .starStar) rfl

theorem Params.segment {p : Params TypeExpr} (hp : p.Read N)
    (hspell : ∀ u ∈ p.types, Phrase (spell u) u.render.toList) : Segment (p.pieces spell) p.text.toList := by
  have hitem : ∀ i ∈ p.items, Segment (i.pieces spell) i.text.toList := fun i hi => by
    have hparam := Item.param_mem hi
    refine Item.segment (hspell _ (List.mem_map_of_mem hparam)) (hp.params _ hparam).2 fun k hk => ?_
    obtain ⟨q, hq⟩ := Item.keyword_mem hi hk
    exact hp.keywords _ hq
  rw [text_eq_items, String.toList_append, String.toList_append, List.append_assoc]
  exact Segment.enclosed hitem rfl rfl

theorem Block.segment {b : Block TypeExpr} (hp : b.params.Read N)
    (hspell : ∀ u ∈ b.types, Phrase (spell u) u.render.toList) : Segment (b.pieces spell) b.text.toList := by
  have hparams := Params.segment hp fun u hu => hspell u (List.mem_append_left _ hu)
  have hresult := (hspell b.result (List.mem_append_right _ List.mem_cons_self)).toSegment
  have hbody : Segment (.mark .lbrace :: .blank ::
      (b.params.pieces spell ++ Piece.arrow ++ spell b.result ++ [.blank, .mark .rbrace]))
      ("\x7b " ++ b.params.text ++ " -> " ++ b.result.render ++ " \x7d").toList := by
    have h := (hparams.join Piece.arrow (by decide) (by decide) hresult).closeBlank .rbrace rfl
    simpa [Piece.text, Piece.chars, Piece.arrow, Mark.chars] using h.prepend [.mark .lbrace, .blank] (by decide)
  have htext : b.text = (if b.required then "" else "?") ++
      ("\x7b " ++ b.params.text ++ " -> " ++ b.result.render ++ " \x7d") := by
    simp only [text, render, Params.text, String.append_assoc]
  rw [htext, pieces]
  cases b.required with
  | true => exact hbody
  | false =>
    rw [String.toList_append]
    exact hbody.cons (p := .mark .question) rfl

/-! ## Types -/

theorem Phrase.grouped {ps : List Piece} (h : Phrase ps t.render.toList) :
    Phrase (Piece.grouped t ps) t.grouped.toList := by
  unfold Piece.grouped TypeExpr.grouped
  split
  · rw [String.toList_append, String.toList_append, List.append_assoc]
    exact ⟨(h.toSegment.close .rparen rfl).cons (p := .mark .lparen) rfl, _, rfl, rfl⟩
  · exact h

theorem Phrase.append {ps qs : List Piece} {cs ds : List Char} (h : Phrase ps cs) (h' : Segment (ps ++ qs) ds) :
    Phrase (ps ++ qs) ds := by
  obtain ⟨p, hp, hopens⟩ := h.opens
  exact ⟨h', p, by rw [List.head?_append, hp]; rfl, hopens⟩

theorem Phrase.intercalate {sep : List Piece} {g : α → List Char} (hsep : ∀ p ∈ sep, p.isFree = true) (hne : sep ≠ [])
    (hxs : xs ≠ []) (h : ∀ x ∈ xs, Phrase (f x) (g x)) :
    Phrase (sep.intercalate (xs.map f)) ((Piece.text sep).intercalate (xs.map g)) := by
  have hsegment := Segment.intercalate hsep hne hxs fun x hx => (h x hx).toSegment
  refine ⟨hsegment, ?_⟩
  obtain ⟨x, xs, rfl⟩ := List.exists_cons_of_ne_nil hxs
  obtain ⟨p, hp, hopens⟩ := (h x List.mem_cons_self).opens
  refine ⟨p, ?_, hopens⟩
  cases xs with
  | nil => rwa [List.map_singleton, List.intercalate_singleton]
  | cons y ys =>
    rw [List.map_cons, List.map_cons, List.intercalate_cons_cons, List.append_assoc, List.head?_append, hp]
    rfl

namespace TypeExpr

/-- The rows of types, with a mark between them. -/
def joinedPieces (spell : TypeExpr → List Piece) (m : Mark) (ts : List TypeExpr) : List Piece :=
  [.blank, .mark m, .blank].intercalate (ts.map fun u => Piece.grouped u (spell u))

theorem phrase_joined {ts : List TypeExpr} (hts : ts ≠ []) (hspell : ∀ u ∈ ts, Phrase (spell u) u.render.toList) {m : Mark}
    (hm : (Piece.mark m).isFree = true) {sep : String} (hsep : sep.toList = ' ' :: (m.chars ++ [' '])) :
    Phrase (joinedPieces spell m ts) (sep.intercalate (renderGrouped ts)).toList := by
  have hfree : ∀ p ∈ [Piece.blank, .mark m, .blank], p.isFree = true :=
    List.forall_mem_cons.2 ⟨rfl, List.forall_mem_cons.2 ⟨hm, List.forall_mem_singleton.2 rfl⟩⟩
  have htext : Piece.text [.blank, .mark m, .blank] = sep.toList := by simp [hsep, Piece.text, Piece.chars]
  have h := Phrase.intercalate hfree (List.cons_ne_nil _ _) hts fun u hu => (hspell u hu).grouped
  rw [String.toList_intercalate, renderGrouped_eq_map, List.map_map, ← htext]
  exact h

/-- The row of a tuple. -/
def tuplePieces (spell : TypeExpr → List Piece) (ts : List TypeExpr) : List Piece :=
  .mark .lbracket :: (Piece.commas (ts.map spell) ++ [.mark .rbracket])

theorem segment_tuple {ts : List TypeExpr} (hspell : ∀ u ∈ ts, Phrase (spell u) u.render.toList) :
    Segment (tuplePieces spell ts) (tuple ts).render.toList := by
  rw [render, renderAll_eq_map, String.toList_append, String.toList_append, List.append_assoc]
  exact Segment.enclosed (fun u hu => (hspell u hu).toSegment) rfl rfl

/-- The row of type arguments. -/
def argsPieces (spell : TypeExpr → List Piece) (args : List TypeExpr) : List Piece :=
  if args.isEmpty then [] else tuplePieces spell args

theorem phrase_classRef (hsp : sp.Valid) {args : List TypeExpr}
    (hspell : ∀ u ∈ args, Phrase (spell u) u.render.toList) :
    Phrase (sp.pieces ++ argsPieces spell args) (classRef sp.qualified.text args).render.toList := by
  have hname := sp.phrase hsp
  cases args with
  | nil =>
    rw [argsPieces, List.isEmpty_nil, if_pos rfl, List.append_nil, render]
    exact hname
  | cons a as =>
    have hargs := segment_tuple hspell
    refine hname.append ?_
    have htext : (classRef sp.qualified.text (a :: as)).render = sp.qualified.text ++ (tuple (a :: as)).render := by
      rw [render, render, String.append_assoc, String.append_assoc, String.append_assoc]
    rw [htext, String.toList_append, argsPieces, List.isEmpty_cons, if_neg Bool.false_ne_true]
    exact hname.toSegment.append hargs ⟨_, rfl, rfl⟩

/-- The row of a singleton type. -/
def singletonPieces (sp : Spelling) : List Piece :=
  .word Keyword.singleton.text :: .mark .lparen :: (sp.pieces ++ [.mark .rparen])

theorem phrase_singleton (hsp : sp.Valid) :
    Phrase (singletonPieces sp) (singleton sp.qualified.text).render.toList := by
  have hname := ((sp.phrase hsp).toSegment.close .rparen rfl).cons (p := .mark .lparen) rfl
  have h := (Phrase.keyword .singleton).append ((Phrase.keyword .singleton).toSegment.append hname ⟨_, rfl, rfl⟩)
  simpa [singletonPieces, render, Piece.chars, Mark.chars, Keyword.text] using h

theorem phrase_optional {ps : List Piece} (h : Phrase ps t.render.toList) :
    Phrase (Piece.grouped t ps ++ [.mark .question]) (optional t).render.toList := by
  rw [render, ← grouped, String.toList_append]
  exact h.grouped.append (h.grouped.toSegment.close .question rfl)

/-- The row of what stands after the parameters. -/
def tailPieces (spell : TypeExpr → List Piece) (block : Option (Block TypeExpr)) (result : List Piece) : List Piece :=
  Piece.ofBlock spell block ++ (Piece.arrow ++ result)

theorem segment_tail {ps : List Piece} {cs : List Char} (hps : Segment ps cs) {block : Option (Block TypeExpr)}
    (hblock : ∀ b ∈ block, b.params.Read N) (hspell : ∀ b ∈ block, ∀ u ∈ b.types, Phrase (spell u) u.render.toList)
    {result : List Piece} {ds : List Char} (hresult : Segment result ds) :
    Segment (ps ++ tailPieces spell block result) (cs ++ ((renderBlock block).toList ++ (" -> ".toList ++ ds))) := by
  have harrow : ∀ {qs : List Piece} {es : List Char}, Segment qs es →
      Segment (qs ++ (Piece.arrow ++ result)) (es ++ (" -> ".toList ++ ds)) := fun h => by
    have hjoin := h.join Piece.arrow (by decide) (by decide) hresult
    rwa [List.append_assoc, List.append_assoc] at hjoin
  rw [tailPieces, renderBlock_eq]
  cases block with
  | none => exact harrow hps
  | some b =>
    have hb := (Block.segment (hblock b rfl) (hspell b rfl)).cons (p := .blank) rfl
    have h := harrow (hps.append hb ⟨_, rfl, rfl⟩)
    rw [List.append_assoc, List.append_assoc] at h
    rw [Option.elim_some, String.toList_append]
    exact h

theorem phrase_proc {p : Params TypeExpr} {block : Option (Block TypeExpr)} (hp : p.Read N)
    (hblock : ∀ b ∈ block, b.params.Read N)
    (hspell : ∀ u ∈ (proc p t block).children, Phrase (spell u) u.render.toList) :
    Phrase (.mark .caret :: (p.pieces spell ++ tailPieces spell block (Piece.grouped t (spell t))))
      (proc p t block).render.toList := by
  have hparams := Params.segment hp fun u hu => hspell u (by simp [children, hu])
  have hresult := (hspell t (by simp [children])).grouped.toSegment
  have htail := segment_tail hparams hblock (fun b hb u hu => hspell u (by cases hb; simp [children, hu])) hresult
  refine ⟨?_, _, rfl, rfl⟩
  rw [render, ← grouped]
  simpa [Params.text, Piece.chars, Mark.chars] using htail.cons (p := .mark .caret) rfl

end TypeExpr

/-! ## Records -/

/-- An entry of a record: a field, or the type of the keys that are not declared. -/
inductive Entry where
  | field (f : Field TypeExpr)
  | extra (t : TypeExpr)

namespace Entry

/-- The type of an entry. -/
def type : Entry → TypeExpr
  | field f => f.type
  | extra t => t

/-- The printed form of an entry. -/
def text : Entry → String
  | field f => TypeExpr.fieldText f
  | extra t => "**" ++ t.render

/-- The row of an entry. -/
def pieces (spell : TypeExpr → List Piece) : Entry → List Piece
  | field f => f.pieces spell
  | extra t => .mark .starStar :: spell t

/-- The entries of a record. -/
def all (fields : List (Field TypeExpr)) (extra : Option TypeExpr) : List Entry :=
  fields.map field ++ extra.toList.map Entry.extra

end Entry

theorem Key.chars_piece (k : Key) : k.piece.chars = k.render.toList := by
  cases k with
  | str s => exact String.toList_ofList.symm
  | _ => rfl

theorem Field.toList_render (f : Field String) : f.render.toList = Piece.text f.lead ++ f.type.toList := by
  obtain ⟨k, t, required⟩ := f
  have hmark : (if required then "" else "?").toList = Piece.text (if required then [] else [.mark .question]) := by
    cases required <;> rfl
  rw [lead, Piece.text, List.flatMap_append, ← Piece.text, ← hmark]
  cases k with
  | str s =>
    simp only [render, Piece.ofKey]
    split
    · simp [Piece.label, Piece.chars, Mark.chars]
    · simp [Key.chars_piece]
      rfl
  | _ =>
    simp [render, Piece.ofKey, Key.chars_piece]
    rfl

/-- A key goes before any type. -/
theorem Key.segment {k : Key} (hshort : k.Short) (hk : k.Printable) {ps : List Piece} {cs : List Char}
    (h : Segment ps cs) : Segment (Piece.ofKey k ++ ps) (Piece.text (Piece.ofKey k) ++ cs) := by
  have harrow {p : Piece} (hp : p.Valid) (hcloses : p.closes = true) :
      Segment ([p, .blank, .mark .fatArrow, .blank] ++ ps) (Piece.text [p, .blank, .mark .fatArrow, .blank] ++ cs) := by
    have hjoin := (Segment.single hp hcloses).join [.blank, .mark .fatArrow, .blank] (by decide) (by decide) h
    simpa [Piece.text] using hjoin
  cases k with
  | int n => exact harrow (p := .integer n) hshort rfl
  | bool b => exact hk.elim
  | str s =>
    rw [Key.Printable] at hk
    rw [Piece.ofKey]
    split
    · rename_i hidentifier
      have hs := Text.isWord_of_isIdentifier hidentifier (by rwa [if_pos hidentifier] at hk)
      simpa [Piece.text, Piece.label, Piece.chars, Mark.chars] using h.label hs
    · rename_i hidentifier
      exact harrow (p := .string s) (by rwa [if_neg hidentifier] at hk) rfl

theorem Field.segment {f : Field TypeExpr} (hshort : f.key.Short) (hkey : f.key.Printable)
    (htype : Phrase (spell f.type) f.type.render.toList) : Segment (f.pieces spell) (TypeExpr.fieldText f).toList := by
  have hsegment := Key.segment hshort hkey htype.toSegment
  rw [TypeExpr.fieldText, Field.toList_render, pieces, lead, lead]
  split
  · exact hsegment
  · exact hsegment.cons (p := .mark .question) rfl

namespace TypeExpr

/-- The row of a record. -/
def recordPieces (spell : TypeExpr → List Piece) (entries : List Entry) : List Piece :=
  if entries.isEmpty then [.mark .lbrace, .mark .rbrace] else
    .mark .lbrace :: .blank :: (Piece.commas (entries.map (Entry.pieces spell)) ++ [.blank, .mark .rbrace])

theorem render_record (fields : List (Field TypeExpr)) (extra : Option TypeExpr) :
    (record fields extra).render = if (Entry.all fields extra).isEmpty then "\x7b\x7d" else
      "\x7b " ++ commaSeparated ((Entry.all fields extra).map Entry.text) ++ " \x7d" := by
  have hparts : renderFields fields ++ renderExtra extra = (Entry.all fields extra).map Entry.text := by
    rw [renderFields_eq_map, renderExtra_eq_map, Entry.all, List.map_append, List.map_map, List.map_map]
    rfl
  simp only [render, hparts, List.isEmpty_map]

theorem phrase_record {fields : List (Field TypeExpr)} {extra : Option TypeExpr}
    (hkeys : ∀ f ∈ fields, f.key.Short ∧ f.key.Printable)
    (hspell : ∀ u ∈ (record fields extra).children, Phrase (spell u) u.render.toList) :
    Phrase (recordPieces spell (Entry.all fields extra)) (record fields extra).render.toList := by
  have hentry : ∀ e ∈ Entry.all fields extra, Segment (e.pieces spell) e.text.toList := by
    intro e he
    rcases List.mem_append.1 he with he | he
    · obtain ⟨f, hf, rfl⟩ := List.mem_map.1 he
      exact Field.segment (hkeys f hf).1 (hkeys f hf).2
        (hspell f.type (List.mem_append_left _ (List.mem_map_of_mem hf)))
    · obtain ⟨t, ht, rfl⟩ := List.mem_map.1 he
      rw [Entry.text, String.toList_append]
      exact (hspell t (List.mem_append_right _ ht)).toSegment.cons (p := .mark .starStar) rfl
  rw [render_record, recordPieces]
  split
  · exact ⟨(Segment.single (p := .mark .rbrace) trivial rfl).cons (p := .mark .lbrace) rfl, _, rfl, rfl⟩
  · rename_i hne
    have h := (Segment.commas (by simpa using hne) hentry).closeBlank .rbrace rfl
    refine ⟨?_, _, rfl, rfl⟩
    simpa [Piece.text, Piece.chars, Mark.chars] using h.prepend [.mark .lbrace, .blank] (by decide)

end TypeExpr

/-! ## Signatures -/

/-- The row of the type variables of a signature. -/
def Piece.binders (names : List String) : List Piece :=
  if names.isEmpty then [] else mark .lbracket :: (commas (names.map fun n => [word n]) ++ [mark .rbracket, blank])

/-- The row of a signature. -/
def Signature.pieces (spell : TypeExpr → List Piece) (s : Signature) : List Piece :=
  Piece.binders s.typeParams ++
    (s.params.pieces spell ++ TypeExpr.tailPieces spell s.block (spell s.result))

theorem Segment.binders {names : List String} (hnames : ∀ n ∈ names, Text.isName n = true) {ps : List Piece}
    {cs : List Char} (h : Segment ps cs) :
    Segment (Piece.binders names ++ ps)
      ((if names.isEmpty then "" else "[" ++ commaSeparated names ++ "] ").toList ++ cs) := by
  unfold Piece.binders
  split
  · exact h
  · rename_i hne
    have hword : ∀ n ∈ names, Segment [.word n] (id n).toList := fun n hn =>
      Segment.word (Text.isName_iff.1 (hnames n hn)).1
    have hclose := (Segment.commas (by simpa using hne) hword).close .rbracket rfl
    have hblank := hclose.append (h.cons (p := .blank) rfl) ⟨_, rfl, rfl⟩
    simpa [Piece.chars, Mark.chars] using hblank.cons (p := .mark .lbracket) rfl

theorem Signature.segment {resolve : Registry.Resolve} {s : Signature} (hs : s.Read resolve)
    (hparams : ∀ u ∈ s.params.types, Phrase (spell u) u.render.toList)
    (hblock : ∀ b ∈ s.block, ∀ u ∈ b.types, Phrase (spell u) u.render.toList)
    (hresult : Phrase (spell s.result) s.result.render.toList) : Segment (s.pieces spell) s.render.toList := by
  have hlist := Params.segment hs.params hparams
  have htail := TypeExpr.segment_tail hlist (fun b hb => (hs.block b hb).1) hblock hresult.toSegment
  simpa [pieces, render] using htail.binders hs.names

end Rows

end Conformance
