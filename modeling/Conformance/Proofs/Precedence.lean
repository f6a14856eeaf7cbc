import Mathlib
import Conformance.Proofs.Constituents

/-!
# Reading printed types at every level of precedence

A type stands either alone or as a part of another, where a union, an intersection or a proc is put in parentheses.
`Readable` says that the row of a type is read back in both places, whatever question marks follow it in the second.
There is one lemma per kind of node; together they give `exists_readable`: every tree that was read, and has nothing in
it that cannot be printed, has a row that is read back as that tree.
-/

namespace Conformance

open Face Piece

namespace Parser

variable {ε : Type} {scope : Scope ε} {nested result : Parser ε TypeExpr} {spell : TypeExpr → List Piece}
  {sp : Spelling}

/-! ## Types without operators -/

section Primary

variable {i o rest : List Face} {t : TypeExpr}

theorem kind_of_faces {c : Cursor} {k : TokenKind} (hc : c.faces = i) (hk : kindAt i 0 = k) : c.kind = k := by
  rw [Cursor.kind_eq_kindAt, hc, hk]

theorem reads_primary_group {ps : List Piece} (h : Legible nested ps t) (rest : List Face) :
    Reads (primary scope nested result) (faces (.mark .lparen :: (ps ++ [.mark .rparen])) ++ rest) t rest := by
  rw [faces_mark, faces_append, List.cons_append, List.append_assoc]
  refine reads_get_bind fun c hc => ?_
  rw [kind_of_faces hc rfl]
  refine reads_advance_bind nofun fun _ _ => (h.reads _ (after_mark (by decide) rest)).bind ?_
  exact (reads_expect .rparen _ rest).bind (reads_pure t rest)

theorem reads_primary_tuple {ts : List TypeExpr} (hspell : ∀ u ∈ ts, Legible nested (spell u) u) (rest : List Face) :
    Reads (primary scope nested result) (faces (TypeExpr.tuplePieces spell ts) ++ rest) (.tuple ts) rest := by
  refine reads_get_bind fun c hc => ?_
  rw [kind_of_faces hc rfl]
  exact reads_tuple hspell rest

theorem reads_primary_brace (hi : kindAt i 0 = .mark .lbrace) (h : Reads (record nested) i t o) :
    Reads (primary scope nested result) i t o := by
  refine reads_get_bind fun c hc => ?_
  rw [kind_of_faces hc hi]
  exact h

theorem reads_primary_caret (h : Reads (proc nested result) i t o) :
    Reads (primary scope nested result) (ofMark .caret :: i) t o := by
  refine reads_get_bind fun c hc => ?_
  rw [kind_of_faces hc rfl]
  exact reads_advance_bind nofun fun _ _ => h

theorem reads_primary_named (hi : kindAt i 0 = .mark .colonColon ∨ kindAt i 0 = .identifier)
    (h : Reads (named scope nested) i t o) : Reads (primary scope nested result) i t o := by
  refine reads_get_bind fun c hc => ?_
  rcases hi with hi | hi <;> rw [kind_of_faces hc hi] <;> exact h

theorem reads_primary_literal (l : Literal) (rest : List Face) :
    Reads (primary scope nested result) (faces [l.piece] ++ rest) (.literal l) rest := by
  refine reads_get_bind fun c hc => ?_
  cases l with
  | bool b =>
    rw [Literal.piece, faces_word] at hc ⊢
    rw [kind_of_faces hc (wordKind_keyword (.truth b))]
    exact reads_advance_bind (wordKind_ne_end (Keyword.truth b).text) fun _ _ => reads_pure _ rest
  | _ =>
    rw [kind_of_faces hc rfl]
    exact reads_advance_bind nofun fun _ _ => reads_pure _ rest

theorem reads_primary_untyped (rest : List Face) :
    Reads (primary scope nested result) (faces [.word Keyword.untyped.text] ++ rest) .untyped rest := by
  rw [faces_word]
  refine reads_get_bind fun c hc => ?_
  rw [kind_of_faces hc (wordKind_keyword .untyped)]
  exact reads_advance_bind (wordKind_ne_end Keyword.untyped.text) fun _ _ => reads_pure _ rest

theorem reads_primary_base (b : Base) (rest : List Face) :
    Reads (primary scope nested result) (faces [.word (Keyword.base b).text] ++ rest) (.base b) rest := by
  rw [faces_word]
  refine reads_get_bind fun c hc => ?_
  rw [kind_of_faces hc (wordKind_keyword (.base b))]
  exact reads_advance_bind (wordKind_ne_end (Keyword.base b).text) fun _ _ => reads_pure _ rest

theorem reads_primary_singleton (hsp : sp.Valid) (rest : List Face) :
    Reads (primary scope nested result) (faces (TypeExpr.singletonPieces sp) ++ rest)
      (.singleton sp.qualified.text) rest := by
  have hfaces : kindAt (faces (TypeExpr.singletonPieces sp) ++ rest) 0 = .keyword .singleton := by
    rw [TypeExpr.singletonPieces, faces_word]
    exact wordKind_keyword .singleton
  refine reads_get_bind fun c hc => ?_
  rw [kind_of_faces hc hfaces]
  exact reads_singleton hsp rest

/-- A qualified name begins with a word or with `::`. -/
theorem kindAt_spelling (hsp : sp.Valid) (rest : List Face) :
    kindAt (faces sp.pieces ++ rest) 0 = .mark .colonColon ∨ kindAt (faces sp.pieces ++ rest) 0 = .identifier := by
  rw [Spelling.pieces]
  split
  · exact .inl rfl
  · right
    rw [List.nil_append, faces_word]
    exact wordKind_of_isName hsp.1

end Primary

/-! ## Question marks, parts and alternatives -/

theorem reads_questionMarks {rest : List Face} (hrest : After partMarks rest) (k : Nat) (t : TypeExpr) {fuel : Nat}
    (hfuel : k < fuel) :
    Reads (questionMarks t fuel : Parser ε TypeExpr) (List.replicate k (ofMark .question) ++ rest)
      (TypeExpr.optional^[k] t) rest := by
  induction k generalizing t fuel with
  | zero =>
    obtain ⟨fuel, rfl⟩ : ∃ n, fuel = n + 1 := ⟨fuel - 1, by omega⟩
    refine reads_get_bind fun c hc => .ite_neg ?_ (reads_pure t rest)
    have hquestion := hrest.mark .question List.mem_cons_self
    simp [Cursor.atMark_eq, hc, hquestion]
  | succ k ih =>
    obtain ⟨fuel, rfl⟩ : ∃ n, fuel = n + 1 := ⟨fuel - 1, by omega⟩
    have hmore := ih (.optional t) (Nat.lt_of_succ_lt_succ hfuel)
    have hlabel : labelAt (List.replicate k (ofMark .question) ++ rest) 0 = false := by
      cases k with
      | zero => exact hrest.label
      | succ k => rfl
    rw [List.replicate_succ, List.cons_append]
    refine reads_get_bind fun c hc => .ite_pos ?_ (reads_advance_bind nofun fun _ _ => hmore)
    simp [Cursor.atMark_eq, Cursor.atKeyword_eq, hc, hlabel]

theorem joined_of_two_le (join : List TypeExpr → TypeExpr) {ts : List TypeExpr} (hts : 2 ≤ ts.length) :
    joined join ts = join ts := by
  match ts, hts with
  | _ :: _ :: _, _ => rfl

section Levels

variable {fuel : Nat} {rest : List Face} {row : TypeExpr → List Face} {ts : List TypeExpr}

theorem reads_single {i : List Face} {t : TypeExpr} (h : Reads (optionalType scope fuel) i t rest)
    (hrest : After typeMarks rest) : Reads (typeExpr scope (fuel + 1)) i t rest := by
  refine (reads_separatedBy_one (a := t) ?_ (hrest.mark .pipe (by decide))).bind (reads_pure t rest)
  exact (reads_separatedBy_one h (hrest.mark .ampersand (by decide))).bind (reads_pure t rest)

variable (hts : 2 ≤ ts.length)
  (hpart : ∀ u ∈ ts, ∀ o, After partMarks o → Reads (optionalType scope fuel) (row u ++ o) u o)

include hts hpart

theorem reads_union (hrest : After typeMarks rest) :
    Reads (typeExpr scope (fuel + 1)) ([ofMark .pipe].intercalate (ts.map row) ++ rest) (.union ts) rest := by
  have hne : ts ≠ [] := List.ne_nil_of_length_pos (by omega)
  rw [← joined_of_two_le .union hts]
  refine (reads_separatedBy hne (by decide) hrest fun u hu o ho => ?_).bind (reads_pure _ rest)
  exact (reads_separatedBy_one (hpart u hu o ho.tail) (ho.mark .ampersand (by decide))).bind (reads_pure u o)

theorem reads_intersection (hrest : After typeMarks rest) :
    Reads (typeExpr scope (fuel + 1)) ([ofMark .ampersand].intercalate (ts.map row) ++ rest) (.intersection ts) rest := by
  have hne : ts ≠ [] := List.ne_nil_of_length_pos (by omega)
  rw [← joined_of_two_le .intersection hts]
  refine (reads_separatedBy_one (a := joined .intersection ts) ?_ (hrest.mark .pipe (by decide))).bind (reads_pure _ rest)
  exact (reads_separatedBy hne (by decide) hrest.tail hpart).bind (reads_pure _ rest)

end Levels

/-! ## Readable rows -/

/-- The row of a type is read back, both alone and as a part. -/
structure Readable (scope : Scope ε) (ps : List Piece) (t : TypeExpr) : Prop where
  phrase : Phrase ps t.render.toList
  unlabelled : Unlabelled (faces ps)
  type : ∀ {fuel : Nat} {rest : List Face}, 2 * (faces ps).length ≤ fuel → After typeMarks rest →
    Reads (typeExpr scope fuel) (faces ps ++ rest) t rest
  part : ∀ (k : Nat) {fuel : Nat} {rest : List Face}, 2 * (faces (grouped t ps)).length ≤ fuel + 1 →
    After partMarks rest → Reads (optionalType scope fuel)
      (faces (grouped t ps) ++ (List.replicate k (ofMark .question) ++ rest)) (TypeExpr.optional^[k] t) rest

namespace Readable

variable {ps : List Piece} {t : TypeExpr}

theorem legible (h : Readable scope ps t) {fuel : Nat} (hfuel : 2 * (faces ps).length ≤ fuel) :
    Legible (typeExpr scope fuel) ps t :=
  ⟨h.phrase, h.unlabelled, fun _ hrest => h.type hfuel hrest⟩

theorem legible_nestedType (h : Readable scope ps t) : Legible (nestedType scope) ps t := by
  refine ⟨h.phrase, h.unlabelled, fun rest hrest => reads_get_bind fun c hc => h.type ?_ hrest⟩
  rw [Cursor.length_tokens, hc, List.length_append]
  omega

end Readable

theorem length_pos_of_phrase {ps : List Piece} {cs : List Char} (h : Phrase ps cs) : 0 < (faces ps).length := by
  obtain ⟨p, hp, hopens⟩ := h.opens
  cases ps with
  | nil => cases hp
  | cons q qs =>
    cases hp
    cases p <;> first | exact Nat.zero_lt_succ _ | cases hopens

namespace Readable

variable {ps : List Piece} {t : TypeExpr}

/-- A type that is not put in parentheses, if it is read as a part. -/
theorem of_part (hsimple : t.isCompound = false) (hphrase : Phrase ps t.render.toList)
    (hlabel : Unlabelled (faces ps))
    (hpart : ∀ (k : Nat) {fuel : Nat} {rest : List Face}, 2 * (faces ps).length ≤ fuel + 1 →
      After partMarks rest → Reads (optionalType scope fuel)
        (faces ps ++ (List.replicate k (ofMark .question) ++ rest)) (TypeExpr.optional^[k] t) rest) :
    Readable scope ps t := by
  have hgrouped : grouped t ps = ps := by rw [grouped, hsimple, if_neg Bool.false_ne_true]
  refine ⟨hphrase, hlabel, fun {fuel rest} hfuel hrest => ?_, fun k {fuel rest} => ?_⟩
  · have hpos := length_pos_of_phrase hphrase
    obtain ⟨fuel, rfl⟩ : ∃ n, fuel = n + 1 := ⟨fuel - 1, by omega⟩
    exact reads_single (hpart 0 hfuel hrest.tail.tail) hrest
  · rw [hgrouped]
    exact hpart k

/-- A type that is not put in parentheses, if it is read by itself. -/
theorem of_primary (hsimple : t.isCompound = false) (hphrase : Phrase ps t.render.toList)
    (hlabel : Unlabelled (faces ps))
    (hprimary : ∀ {fuel : Nat} {rest : List Face}, 2 * (faces ps).length ≤ fuel + 2 → After primaryMarks rest →
      Reads (primary scope (typeExpr scope fuel) (optionalType scope fuel)) (faces ps ++ rest) t rest) :
    Readable scope ps t := by
  refine of_part hsimple hphrase hlabel fun k {fuel rest} hfuel hrest => ?_
  have hpos := length_pos_of_phrase hphrase
  obtain ⟨fuel, rfl⟩ : ∃ n, fuel = n + 1 := ⟨fuel - 1, by omega⟩
  have hafter : After primaryMarks (List.replicate k (ofMark .question) ++ rest) := by
    cases k with
    | zero => exact hrest.tail
    | succ k => exact after_mark (by decide) _
  refine (hprimary hfuel hafter).bind (reads_get_bind fun c hc => reads_questionMarks hrest k t ?_)
  rw [Cursor.length_tokens, hc, List.length_append, List.length_replicate]
  omega

/-- A type that is put in parentheses, if it is read alone. -/
theorem of_type (hcompound : t.isCompound = true) (hphrase : Phrase ps t.render.toList)
    (hlabel : Unlabelled (faces ps))
    (htype : ∀ {fuel : Nat} {rest : List Face}, 2 * (faces ps).length ≤ fuel → After typeMarks rest →
      Reads (typeExpr scope fuel) (faces ps ++ rest) t rest) :
    Readable scope ps t := by
  have hgrouped : grouped t ps = .mark .lparen :: (ps ++ [.mark .rparen]) := by rw [grouped, if_pos hcompound]
  refine ⟨hphrase, hlabel, htype, fun k {fuel rest} hfuel hrest => ?_⟩
  have hlength : (faces (grouped t ps)).length = (faces ps).length + 2 := by
    simp [hgrouped]
  obtain ⟨fuel, rfl⟩ : ∃ n, fuel = n + 1 := ⟨fuel - 1, by omega⟩
  have hlegible : Legible (typeExpr scope fuel) ps t := ⟨hphrase, hlabel, fun _ => htype (by omega)⟩
  rw [hgrouped]
  refine (reads_primary_group hlegible _).bind (reads_get_bind fun c hc => reads_questionMarks hrest k t ?_)
  rw [Cursor.length_tokens, hc, List.length_append, List.length_replicate]
  omega

end Readable

/-! ## How long the rows of the types inside are -/

section Length

variable {u : TypeExpr}

theorem sublist_intercalate (sep : List Piece) {row : List Piece} {rows : List (List Piece)} (h : row ∈ rows) :
    row.Sublist (sep.intercalate rows) := by
  induction rows with
  | nil => cases h
  | cons r rows ih =>
    cases rows with
    | nil =>
      rw [List.mem_singleton.1 h, List.intercalate_singleton]
    | cons r' rows =>
      rw [List.intercalate_cons_cons]
      rcases List.mem_cons.1 h with rfl | h
      · exact (List.sublist_append_left _ _).trans (List.sublist_append_left _ _)
      · exact (ih h).trans (List.sublist_append_right _ _)

theorem length_faces_le {ps qs : List Piece} (h : ps.Sublist qs) : (faces ps).length ≤ (faces qs).length :=
  (h.filterMap Piece.face?).length_le

theorem sublist_tuplePieces (spell : TypeExpr → List Piece) {ts : List TypeExpr} (hu : u ∈ ts) :
    (.mark .lbracket :: spell u).Sublist (TypeExpr.tuplePieces spell ts) :=
  ((sublist_intercalate _ (List.mem_map_of_mem hu)).trans (List.sublist_append_left _ _)).cons_cons _

theorem sublist_item (i : Item TypeExpr) : (spell i.param.type).Sublist (i.pieces spell) := by
  have hparam : (spell i.param.type).Sublist (i.param.pieces spell) := List.sublist_append_left _ _
  cases i with
  | required q => exact hparam
  | trailing q => exact hparam
  | optional q => exact hparam.cons _
  | rest q => exact hparam.cons _
  | requiredKeyword name q => exact hparam.trans (List.sublist_append_right _ _)
  | optionalKeyword name q => exact (hparam.trans (List.sublist_append_right _ _)).cons _
  | restKeywords q => exact hparam.cons _

theorem sublist_params (spell : TypeExpr → List Piece) {p : Params TypeExpr} (hu : u ∈ p.types) :
    (spell u).Sublist (p.pieces spell) := by
  rw [Params.types, ← Item.map_param_items, List.map_map] at hu
  obtain ⟨i, hi, rfl⟩ := List.mem_map.1 hu
  have hcommas := sublist_intercalate [.mark .comma, .blank] (List.mem_map_of_mem (f := Item.pieces spell) hi)
  exact (((sublist_item i).trans hcommas).trans (List.sublist_append_left _ _)).cons _

theorem sublist_block (spell : TypeExpr → List Piece) {b : Block TypeExpr} (hu : u ∈ b.types) :
    (spell u).Sublist (b.pieces spell) := by
  refine List.Sublist.trans ?_ (List.sublist_append_right _ _)
  refine .cons _ (.cons _ (.trans ?_ (List.sublist_append_left _ _)))
  rcases List.mem_append.1 hu with hu | hu
  · exact ((sublist_params spell hu).trans (List.sublist_append_left _ _)).trans (List.sublist_append_left _ _)
  · rw [List.mem_singleton.1 hu]
    exact List.sublist_append_right _ _

theorem sublist_entry (e : Entry) : (spell e.type).Sublist (e.pieces spell) := by
  cases e with
  | field f => exact List.sublist_append_right _ _
  | extra t => exact List.sublist_cons_self _ _

end Length

/-! ## Rows that are no labels -/

theorem unlabelled_mark (m : Mark) (fs : List Face) : Unlabelled (ofMark m :: fs) := fun _ _ => rfl

theorem unlabelled_single (f : Face) : Unlabelled [f] := by
  intro rest hrest
  rw [List.singleton_append, labelAt_zero, beq_eq_false_iff_ne.2 hrest, Bool.and_false]

theorem Unlabelled.append {fs gs : List Face} (h : Unlabelled fs)
    (hgs : ∀ rest, kindAt rest 0 ≠ .mark .colon → kindAt (gs ++ rest) 0 ≠ .mark .colon) : Unlabelled (fs ++ gs) := by
  intro rest hrest
  rw [List.append_assoc]
  exact h _ (hgs rest hrest)

theorem unlabelled_spelling (hsp : sp.Valid) : Unlabelled (faces sp.pieces) := by
  unfold Spelling.pieces
  split
  · exact unlabelled_mark _ _
  · rw [List.nil_append, faces_word]
    refine Unlabelled.append (unlabelled_single (ofWord sp.first)) fun rest hrest => ?_
    cases hparts : sp.parts with
    | nil => exact hrest
    | cons p parts =>
      have hlink := (hsp.2 p (hparts ▸ List.mem_cons_self)).1
      refine kindAt_mark_ne fun heq => ?_
      rw [heq] at hlink
      cases hlink

/-! ## One lemma per kind of node -/

section Nodes

theorem readable_untyped : Readable scope [.word Keyword.untyped.text] .untyped :=
  .of_primary rfl (.keyword .untyped) (unlabelled_single _) fun _ _ => reads_primary_untyped _

theorem readable_base (b : Base) : Readable scope [.word (Keyword.base b).text] (.base b) :=
  .of_primary rfl (.keyword (.base b)) (unlabelled_single _) fun _ _ => reads_primary_base b _

theorem readable_literal {l : Literal} (hshort : l.value.Short) (hl : l.Printable) :
    Readable scope [l.piece] (.literal l) := by
  refine .of_primary rfl ?_ ?_ fun _ _ => reads_primary_literal l _
  · rw [TypeExpr.render]
    exact Literal.phrase (l.valid_piece hshort hl)
  · cases l <;> exact unlabelled_single _

theorem readable_singleton (hsp : sp.Valid) :
    Readable scope (TypeExpr.singletonPieces sp) (.singleton sp.qualified.text) := by
  refine .of_primary rfl (TypeExpr.phrase_singleton hsp) ?_ fun _ _ => reads_primary_singleton hsp _
  rw [TypeExpr.singletonPieces, faces_word, faces_mark]
  exact Unlabelled.append (unlabelled_single _) fun _ _ => kindAt_mark_ne (by decide)

theorem phrase_relative (hsp : sp.Valid) : Phrase sp.relative.pieces sp.qualified.bare.toList := by
  have hrelative : sp.relative.Valid := hsp
  have h := sp.relative.phrase hrelative
  rw [Parser.QualifiedName.text, Spelling.qualified_relative] at h
  exact h

theorem readable_typeVar (hsp : sp.Valid) (hvar : sp.qualified.bare ∈ scope.typeParams) :
    Readable scope sp.relative.pieces (.typeVar sp.qualified.bare) := by
  have hrelative : sp.relative.Valid := hsp
  refine .of_primary rfl ?_ (unlabelled_spelling hrelative) fun _ hrest =>
    reads_primary_named (kindAt_spelling hrelative _) (reads_typeVar hsp hvar hrest)
  rw [TypeExpr.render]
  exact phrase_relative hsp

theorem readable_interface (hsp : sp.Valid) (hvar : sp.qualified.bare ∉ scope.typeParams)
    (hlast : sp.qualified.last.startsWith "_" = true) {methods : List (Capability TypeExpr)}
    (hmethods : scope.resolve sp.qualified.bare = .ok methods) :
    Readable scope sp.relative.pieces (.interface sp.qualified.bare methods) := by
  have hrelative : sp.relative.Valid := hsp
  refine .of_primary rfl ?_ (unlabelled_spelling hrelative) fun _ hrest =>
    reads_primary_named (kindAt_spelling hrelative _) (reads_interface hsp hvar hlast hmethods hrest)
  rw [TypeExpr.render]
  exact phrase_relative hsp

theorem readable_classRef (hsp : sp.Valid) (hvar : sp.qualified.bare ∉ scope.typeParams)
    (hlast : sp.qualified.last.startsWith "_" = false) {args : List TypeExpr}
    (hspell : ∀ u ∈ args, Readable scope (spell u) u) :
    Readable scope (sp.pieces ++ TypeExpr.argsPieces spell args) (.classRef sp.qualified.text args) := by
  refine .of_primary rfl (TypeExpr.phrase_classRef hsp fun u hu => (hspell u hu).phrase) ?_ ?_
  · rw [faces_append]
    refine Unlabelled.append (unlabelled_spelling hsp) fun rest hrest => ?_
    unfold TypeExpr.argsPieces
    split
    · exact hrest
    · exact kindAt_mark_ne (by decide)
  · intro fuel rest hfuel hrest
    have hargs : ∀ u ∈ args, Legible (typeExpr scope fuel) (spell u) u := fun u hu => by
      have hempty : args.isEmpty = false := by rw [List.isEmpty_eq_false_iff]; exact List.ne_nil_of_mem hu
      have hlength := length_faces_le (sublist_tuplePieces spell hu)
      rw [faces_mark, List.length_cons] at hlength
      rw [faces_append, List.length_append, TypeExpr.argsPieces, hempty, if_neg Bool.false_ne_true] at hfuel
      exact (hspell u hu).legible (by omega)
    refine reads_primary_named ?_ (reads_classRef hsp hvar hlast hargs hrest)
    rw [faces_append, List.append_assoc]
    exact kindAt_spelling hsp _

theorem readable_tuple {ts : List TypeExpr} (hspell : ∀ u ∈ ts, Readable scope (spell u) u) :
    Readable scope (TypeExpr.tuplePieces spell ts) (.tuple ts) := by
  refine .of_primary rfl ⟨TypeExpr.segment_tuple fun u hu => (hspell u hu).phrase, _, rfl, rfl⟩ (unlabelled_mark _ _) ?_
  intro fuel rest hfuel hrest
  refine reads_primary_tuple (fun u hu => ?_) rest
  have hlength := length_faces_le (sublist_tuplePieces spell hu)
  rw [faces_mark, List.length_cons] at hlength
  exact (hspell u hu).legible (by omega)

theorem Unlabelled.grouped {t : TypeExpr} {ps : List Piece} (h : Unlabelled (faces ps)) :
    Unlabelled (faces (Piece.grouped t ps)) := by
  unfold Piece.grouped
  split
  · exact unlabelled_mark _ _
  · exact h

theorem readable_optional {t : TypeExpr} {ps : List Piece} (h : Readable scope ps t) :
    Readable scope (grouped t ps ++ [.mark .question]) (.optional t) := by
  refine .of_part rfl (TypeExpr.phrase_optional h.phrase) ?_ fun k {fuel rest} hfuel hrest => ?_
  · rw [faces_append]
    exact h.unlabelled.grouped.append fun _ _ => kindAt_mark_ne (by decide)
  · rw [faces_append, List.length_append] at hfuel
    have hbound : 2 * (faces (grouped t ps)).length ≤ fuel + 1 := by omega
    have hpart := h.part (k + 1) hbound hrest
    rw [Function.iterate_succ_apply] at hpart
    rw [faces_append, List.append_assoc]
    exact hpart

section Joined

variable {ts : List TypeExpr} {m : Mark} (hts : 2 ≤ ts.length) (hspell : ∀ u ∈ ts, Readable scope (spell u) u)

theorem faces_joined (m : Mark) (ts : List TypeExpr) : faces (TypeExpr.joinedPieces spell m ts) =
    [ofMark m].intercalate (ts.map fun u => faces (grouped u (spell u))) := by
  rw [TypeExpr.joinedPieces, faces_intercalate, List.map_map]
  rfl

include hspell

/-- Each of the types is read as a part. -/
theorem reads_joined_part {fuel : Nat} (hfuel : 2 * (faces (TypeExpr.joinedPieces spell m ts)).length ≤ fuel + 1) :
    ∀ u ∈ ts, ∀ o, After partMarks o →
      Reads (optionalType scope fuel) (faces (grouped u (spell u)) ++ o) u o := by
  intro u hu o ho
  have hmem := List.mem_map_of_mem (f := fun u => grouped u (spell u)) hu
  have hlength := length_faces_le (sublist_intercalate [.blank, .mark m, .blank] hmem)
  rw [TypeExpr.joinedPieces] at hfuel
  have hbound : 2 * (faces (grouped u (spell u))).length ≤ fuel + 1 := by omega
  exact (hspell u hu).part 0 hbound ho

include hts

theorem unlabelled_joined (hm : m ≠ .colon) : Unlabelled (faces (TypeExpr.joinedPieces spell m ts)) := by
  match ts, hts with
  | t :: u :: ts, _ =>
    rw [faces_joined, List.map_cons, List.map_cons, List.intercalate_cons_cons, List.append_assoc]
    exact (hspell t List.mem_cons_self).unlabelled.grouped.append fun _ _ => kindAt_mark_ne hm

/-- A type of several, if it is read where each of them is read as a part. -/
theorem readable_joined {t : TypeExpr} (ht : t.isCompound = true) {sep : String}
    (hrender : t.render = sep.intercalate (TypeExpr.renderGrouped ts)) (hm : (Piece.mark m).isFree = true)
    (hsep : sep.toList = ' ' :: (m.chars ++ [' '])) (hcolon : m ≠ .colon)
    (hreads : ∀ {fuel : Nat} {rest : List Face}, (∀ u ∈ ts, ∀ o, After partMarks o →
      Reads (optionalType scope fuel) (faces (grouped u (spell u)) ++ o) u o) → After typeMarks rest →
      Reads (typeExpr scope (fuel + 1)) ([ofMark m].intercalate (ts.map fun u => faces (grouped u (spell u))) ++ rest) t rest) :
    Readable scope (TypeExpr.joinedPieces spell m ts) t := by
  have hne : ts ≠ [] := List.ne_nil_of_length_pos (by omega)
  have hphrase : Phrase (TypeExpr.joinedPieces spell m ts) t.render.toList := by
    rw [hrender]
    exact TypeExpr.phrase_joined hne (fun u hu => (hspell u hu).phrase) hm hsep
  refine .of_type ht hphrase (unlabelled_joined hts hspell hcolon) fun {fuel rest} hfuel hrest => ?_
  have hpos := length_pos_of_phrase hphrase
  obtain ⟨fuel, rfl⟩ : ∃ n, fuel = n + 1 := ⟨fuel - 1, by omega⟩
  rw [faces_joined]
  exact hreads (reads_joined_part hspell hfuel) hrest

theorem readable_union : Readable scope (TypeExpr.joinedPieces spell .pipe ts) (.union ts) :=
  readable_joined hts hspell rfl (by rw [TypeExpr.render]) rfl rfl (by decide) (reads_union hts)

theorem readable_intersection : Readable scope (TypeExpr.joinedPieces spell .ampersand ts) (.intersection ts) :=
  readable_joined hts hspell rfl (by rw [TypeExpr.render]) rfl rfl (by decide) (reads_intersection hts)

end Joined

theorem readable_record {fields : List (Field TypeExpr)} {extra : Option TypeExpr}
    (hkeys : fields.Pairwise fun f g => f.key.same g.key = false)
    (hprint : ∀ f ∈ fields, f.key.Short ∧ f.key.Printable)
    (hspell : ∀ u ∈ (TypeExpr.record fields extra).children, Readable scope (spell u) u) :
    Readable scope (TypeExpr.recordPieces spell (Entry.all fields extra)) (.record fields extra) := by
  have hhead : ∃ ps, TypeExpr.recordPieces spell (Entry.all fields extra) = .mark .lbrace :: ps := by
    unfold TypeExpr.recordPieces
    split
    · exact ⟨_, rfl⟩
    · exact ⟨_, rfl⟩
  have hlength : ∀ u ∈ (TypeExpr.record fields extra).children, (faces (spell u)).length + 1 ≤
      (faces (TypeExpr.recordPieces spell (Entry.all fields extra))).length := by
    intro u hu
    obtain ⟨e, he, rfl⟩ : ∃ e ∈ Entry.all fields extra, e.type = u := by
      rcases List.mem_append.1 hu with hu | hu
      · obtain ⟨f, hf, rfl⟩ := List.mem_map.1 hu
        exact ⟨.field f, List.mem_append_left _ (List.mem_map_of_mem hf), rfl⟩
      · exact ⟨.extra u, List.mem_append_right _ (List.mem_map_of_mem hu), rfl⟩
    have hne : (Entry.all fields extra).isEmpty = false := by
      rw [List.isEmpty_eq_false_iff]
      exact List.ne_nil_of_mem he
    have hmem := List.mem_map_of_mem (f := Entry.pieces spell) he
    have hsub := (sublist_entry e).trans (sublist_intercalate [.mark .comma, .blank] hmem)
    have hle := length_faces_le hsub
    rw [TypeExpr.recordPieces, hne, if_neg Bool.false_ne_true, faces_mark, faces_blank, faces_append,
      List.length_cons, List.length_append, commas]
    omega
  obtain ⟨ps, hps⟩ := hhead
  refine .of_primary rfl (TypeExpr.phrase_record hprint fun u hu => (hspell u hu).phrase) ?_ ?_
  · rw [hps]
    exact unlabelled_mark _ _
  · intro fuel rest hfuel hrest
    refine reads_primary_brace (by rw [hps]; rfl) (reads_record hkeys (fun f hf => (hprint f hf).2) (fun u hu => ?_) rest)
    have hle := hlength u hu
    exact (hspell u hu).legible (by omega)

theorem readable_proc {p : Params TypeExpr} {t : TypeExpr} {b : Option (Block TypeExpr)} {N : TypeExpr → Prop}
    (hp : p.Read N) (hb : ∀ b' ∈ b, b'.params.Read N)
    (hspell : ∀ u ∈ (TypeExpr.proc p t b).children, Readable scope (spell u) u) :
    Readable scope (.mark .caret :: (p.pieces spell ++ TypeExpr.tailPieces spell b (grouped t (spell t))))
      (.proc p t b) := by
  have hparams : ∀ u ∈ p.types, Readable scope (spell u) u := fun u hu => hspell u (by simp [TypeExpr.children, hu])
  have hblock : ∀ b' ∈ b, ∀ u ∈ b'.types, Readable scope (spell u) u := fun b' hb' u hu =>
    hspell u (by cases hb'; simp [TypeExpr.children, hu])
  have ht := hspell t (by simp [TypeExpr.children])
  refine .of_type rfl (TypeExpr.phrase_proc hp hb fun u hu => (hspell u hu).phrase) (unlabelled_mark _ _) ?_
  intro fuel rest hfuel hrest
  simp only [faces_mark, List.length_cons, faces_append, List.length_append, TypeExpr.tailPieces,
    arrow, faces_blank] at hfuel
  obtain ⟨fuel, rfl⟩ : ∃ n, fuel = n + 2 := ⟨fuel - 2, by omega⟩
  have hlegible : ∀ u ∈ p.types, Legible (typeExpr scope fuel) (spell u) u := fun u hu => by
    have hle := length_faces_le (sublist_params spell hu)
    exact (hparams u hu).legible (by omega)
  have hlegible' : ∀ b' ∈ b, ∀ u ∈ b'.types, Legible (typeExpr scope fuel) (spell u) u := fun b' hb' u hu => by
    have hle := length_faces_le (sublist_block spell hu)
    cases hb'
    rw [ofBlock, Option.elim_some, faces_blank] at hfuel
    exact (hblock _ rfl u hu).legible (by omega)
  have hbound : 2 * (faces (grouped t (spell t))).length ≤ fuel + 1 := by omega
  have hresult := ht.part 0 hbound hrest.tail.tail
  have hproc : Reads (proc (typeExpr scope fuel) (optionalType scope fuel))
      (faces (p.pieces spell) ++ (faces (TypeExpr.tailPieces spell b (grouped t (spell t))) ++ rest))
      (.proc p t b) rest :=
    (reads_optionalParams hp hlegible _).bind (reads_tail hb hlegible' (hresult.bind (reads_pure _ rest)))
  rw [faces_mark, faces_append, List.cons_append, List.append_assoc]
  refine reads_single ((reads_primary_caret hproc).bind (reads_get_bind fun c hc => ?_)) hrest
  exact reads_questionMarks hrest.tail.tail 0 _ (Nat.zero_lt_succ _)

end Nodes

end Parser

namespace TypeExpr

/-- The node can be read from its printed form, what stands in it apart. -/
def NodePrintable : TypeExpr → Prop
  | literal l => l.Printable
  | record fields _ => ∀ f ∈ fields, f.key.Printable
  | _ => True

instance (t : TypeExpr) : Decidable t.NodePrintable :=
  match t with
  | literal l => inferInstanceAs (Decidable l.Printable)
  | record fields _ => inferInstanceAs (Decidable (∀ f ∈ fields, f.key.Printable))
  | untyped | base _ | classRef _ _ | singleton _ | interface _ _ | union _ | intersection _ | tuple _ | typeVar _
  | optional _ | proc _ _ _ => isTrue trivial

/-- All literals and keys in the type can be read from their printed forms. -/
abbrev Printable (t : TypeExpr) : Prop := t.Everywhere NodePrintable

end TypeExpr

namespace Parser

variable {ε : Type} {scope : Scope ε}

theorem exists_readable {t : TypeExpr} (hread : t.Read scope) (hprint : t.Printable) : ∃ ps, Readable scope ps t := by
  induction t using TypeExpr.childInduction with
  | _ t ih =>
    have hchildren : ∀ u ∈ t.children, ∃ ps, Readable scope ps u := fun u hu => ih u hu (hread.child hu) (hprint.child hu)
    choose! spell hspell using hchildren
    have hnode := hread.here
    have hnodePrint := hprint.here
    cases t with
    | untyped => exact ⟨_, readable_untyped⟩
    | base b => exact ⟨_, readable_base b⟩
    | literal l => exact ⟨_, readable_literal hnode hnodePrint⟩
    | singleton name =>
      obtain ⟨sp, hsp, rfl⟩ := hnode
      exact ⟨_, readable_singleton hsp⟩
    | typeVar name =>
      obtain ⟨sp, hsp, rfl, hvar⟩ := hnode
      exact ⟨_, readable_typeVar hsp hvar⟩
    | interface name methods =>
      obtain ⟨sp, hsp, rfl, hvar, hlast, hmethods⟩ := hnode
      exact ⟨_, readable_interface hsp hvar hlast hmethods⟩
    | classRef name args =>
      obtain ⟨sp, hsp, rfl, hvar, hlast⟩ := hnode
      exact ⟨_, readable_classRef hsp hvar hlast hspell⟩
    | tuple ts => exact ⟨_, readable_tuple hspell⟩
    | union ts => exact ⟨_, readable_union hnode hspell⟩
    | intersection ts => exact ⟨_, readable_intersection hnode hspell⟩
    | optional inner => exact ⟨_, readable_optional (hspell inner List.mem_cons_self)⟩
    | record fields extra =>
      exact ⟨_, readable_record hnode.1 (fun f hf => ⟨hnode.2 f hf, hnodePrint f hf⟩) hspell⟩
    | proc p result b => exact ⟨_, readable_proc hnode.1 hnode.2 hspell⟩

end Parser

end Conformance
