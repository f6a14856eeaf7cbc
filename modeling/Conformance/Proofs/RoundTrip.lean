import Conformance.Proofs.Lookups
import Conformance.Proofs.Precedence

/-!
# What is printed is read back

Reading a type or a signature, printing it and reading it again gives the same tree, if every literal and every key of a
record in it can be read from its printed form (`parse_render`).  The second reading may use what the first one kept.

Strings that need an escape, symbols that are no words, and boolean keys or keys that are identifiers outside ASCII are
what is excluded: none of them is printed as it is written.
-/

namespace Conformance

open Face Piece

variable {t : TypeExpr} {names : List String} {s : Signature}

namespace Parser

variable {ε : Type}

/-! ## Whole texts -/

theorem reads_expectEnd : Reads (expectEnd : Parser ε Unit) [Face.final] () [Face.final] :=
  reads_get_bind fun c hc => .ite_pos (by rw [Cursor.kind_eq_kindAt, hc]; rfl) (reads_pure () _)

theorem reads_wholeType {scope : Scope ε} {ps : List Piece} (h : Readable scope ps t) :
    Reads (wholeType scope) (faces ps ++ [Face.final]) t [Face.final] :=
  (h.legible_nestedType.reads _ after_final).bind (reads_expectEnd.bind (reads_pure t _))

theorem reads_typeParamNames {before : List String} (hne : names ≠ []) (hnames : ∀ n ∈ names, Text.isName n = true)
    (hdistinct : (before ++ names).Nodup) {fuel : Nat} (hfuel : names.length ≤ fuel) (rest : List Face) :
    Reads (typeParamNames before fuel : Parser ε (List String))
      (faces (commas (names.map fun n => [.word n])) ++ ofMark .rbracket :: rest) (before ++ names)
      (ofMark .rbracket :: rest) := by
  induction names generalizing before fuel with
  | nil => exact absurd rfl hne
  | cons n names ih =>
    obtain ⟨fuel, rfl⟩ : ∃ k, fuel = k + 1 := ⟨fuel - 1, by rw [List.length_cons] at hfuel; omega⟩
    have hassoc : before ++ [n] ++ names = before ++ n :: names := by rw [List.append_assoc, List.singleton_append]
    have hnew : ¬ before.contains n = true := by
      rw [List.contains_iff_mem]
      exact fun hmem => (List.nodup_append.1 hdistinct).2.2 n hmem n List.mem_cons_self rfl
    have hname := hnames n List.mem_cons_self
    by_cases hlast : names = []
    · subst hlast
      rw [List.map_singleton, commas, List.intercalate_singleton, faces_word]
      refine (reads_expectIdentifier hname _ _).bind (.ite_neg hnew ?_)
      exact reads_unless_accept (kindAt_mark_ne (by decide)) (reads_pure _ _)
    · have htail := ih hlast (fun m hm => hnames m (List.mem_cons_of_mem _ hm)) (by rwa [hassoc])
        (Nat.le_of_succ_le_succ hfuel)
      rw [List.map_cons, faces_commas_cons _ (by simpa using hlast), faces_word, faces_nil, ← hassoc]
      exact (reads_expectIdentifier hname _ _).bind (.ite_neg hnew (reads_if_accept .comma htail))

theorem reads_typeParams (hnames : ∀ n ∈ names, Text.isName n = true) (hdistinct : names.Nodup) {rest : List Face}
    (hrest : kindAt rest 0 ≠ .mark .lbracket) :
    Reads (typeParams : Parser ε (List String)) (faces (binders names) ++ rest) names rest := by
  unfold binders
  split
  · rename_i hempty
    rw [List.isEmpty_iff] at hempty
    subst hempty
    exact reads_unless_accept hrest (reads_pure _ _)
  · rename_i hne
    rw [List.isEmpty_iff] at hne
    rw [faces_mark, faces_append, List.cons_append, List.append_assoc]
    refine reads_if_accept .lbracket (reads_get_bind fun c hc => ?_)
    refine (reads_typeParamNames hne hnames (by simpa using hdistinct) ?_ rest).bind
      ((reads_expect .rbracket _ rest).bind (reads_pure names rest))
    have hlength := length_le_intercalate .comma ((names.map fun n => [Piece.word n]).map faces)
    rw [List.length_map, List.length_map] at hlength
    rw [Cursor.length_tokens, hc, faces_commas, List.length_append]
    omega

end Parser

/-- All literals and keys in the signature can be read from their printed forms. -/
def Signature.Printable (s : Signature) : Prop := ∀ t ∈ s.types, t.Printable

namespace Parser

variable {ε : Type} {resolve : String → Except ε (List (Capability TypeExpr))}

theorem reads_wholeSignature (hs : s.Read resolve) {spell : TypeExpr → List Piece}
    (hspell : ∀ u ∈ s.types, Readable ⟨s.typeParams, resolve⟩ (spell u) u) (text : String) :
    Reads (wholeSignature resolve text) (faces (s.pieces spell) ++ [Face.final]) { s with text := text }
      [Face.final] := by
  have hlegible : ∀ u ∈ s.types, Legible (nestedType ⟨s.typeParams, resolve⟩) (spell u) u := fun u hu =>
    (hspell u hu).legible_nestedType
  have hparams : ∀ u ∈ s.params.types, u ∈ s.types := fun u hu => List.mem_append_left _ (List.mem_append_left _ hu)
  have hblock : ∀ b ∈ s.block, ∀ u ∈ b.types, u ∈ s.types := fun b hb u hu => by
    rw [Signature.types, hb]
    exact List.mem_append_left _ (List.mem_append_right _ hu)
  have hresult : s.result ∈ s.types := List.mem_append_right _ List.mem_cons_self
  rw [Signature.pieces, faces_append, faces_append, List.append_assoc, List.append_assoc]
  refine (reads_typeParams hs.names hs.distinct (kindAt_mark_ne (by decide))).bind ?_
  refine (reads_optionalParams hs.params (fun u hu => hlegible u (hparams u hu)) _).bind ?_
  refine reads_tail (fun b hb => (hs.block b hb).1) (fun b hb u hu => hlegible u (hblock b hb u hu)) ?_
  exact ((hlegible _ hresult).reads _ after_final).bind (reads_expectEnd.bind (reads_pure _ _))

end Parser

/-! ## Scopes that find more -/

section Finds

variable {ε : Type} {resolve resolve' : String → Except ε (List (Capability TypeExpr))}

theorem TypeExpr.Read.finds (ht : t.Read ⟨names, resolve⟩) (h : Parser.Finds resolve resolve') :
    t.Read ⟨names, resolve'⟩ := by
  intro u hu
  have hnode := ht u hu
  cases u with
  | interface name methods =>
    obtain ⟨sp, hsp, hname, hvar, hlast, hmethods⟩ := hnode
    exact ⟨sp, hsp, hname, hvar, hlast, h name methods hmethods⟩
  | _ => exact hnode

theorem Signature.Read.finds (hs : s.Read resolve) (h : Parser.Finds resolve resolve') : s.Read resolve' where
  names := hs.names
  distinct := hs.distinct
  params := hs.params.mono fun _ ht => ht.finds h
  block b hb := ⟨(hs.block b hb).1.mono fun _ ht => ht.finds h, (hs.block b hb).2.finds h⟩
  result := hs.result.finds h

end Finds

namespace Registry

/-! ## Texts -/

variable {resolve : Resolve}

theorem readWith_segment {text : String} {ps : List Piece} (htext : Segment ps text.toList) {α : Type}
    {p : Parser Fault α} {a : α} {o : List Face} (hp : Parser.Reads p (faces ps ++ [Face.final]) a o) :
    (readWith text p).result = .ok a := by
  obtain ⟨tokens, hfaces, htokens⟩ := Token.tokenize_pieces htext.text htext.valid htext.fits
  obtain ⟨c, -, hrun⟩ := hp ⟨tokens, []⟩ hfaces
  unfold readWith
  rw [htokens]
  dsimp only
  rw [List.isEmpty_nil, if_pos rfl, hrun]

theorem readType_render (hread : t.Read ⟨names, resolve⟩) (hprint : t.Printable) :
    (readType resolve names t.render).result = .ok t := by
  obtain ⟨ps, hps⟩ := Parser.exists_readable hread hprint
  exact readWith_segment hps.phrase.toSegment (Parser.reads_wholeType hps)

theorem readSignature_render (hread : s.Read resolve) (hprint : s.Printable) :
    (readSignature resolve s.render).result = .ok { s with text := s.render } := by
  have hreadable : ∀ t ∈ s.types, ∃ ps, Parser.Readable ⟨s.typeParams, resolve⟩ ps t := fun t ht =>
    Parser.exists_readable (hread.types ht) (hprint t ht)
  choose! spell hspell using hreadable
  have hphrase : ∀ t ∈ s.types, Phrase (spell t) t.render.toList := fun t ht => (hspell t ht).phrase
  have hsegment : Segment (s.pieces spell) s.render.toList :=
    Signature.segment hread (fun u hu => hphrase u (List.mem_append_left _ (List.mem_append_left _ hu)))
      (fun b hb u hu => hphrase u (by
        rw [Signature.types, hb]
        exact List.mem_append_left _ (List.mem_append_right _ hu)))
      (hphrase _ (List.mem_append_right _ List.mem_cons_self))
  exact readWith_segment hsegment (Parser.reads_wholeSignature hread hspell s.render)

/-- Reading what was read and printed gives the same tree again, with whatever the first reading kept; a signature differs
in the text it was read from only, so that it is printed as before. -/
theorem parse_render (r : Registry) :
    (∀ (text : String) (typeParams : List String) (t : TypeExpr),
      (r.parseType text typeParams).1 = .ok t → t.Printable →
        ((r.parseType text typeParams).2.parseType t.render typeParams).1 = .ok t) ∧
    (∀ (text : String) (s : Signature), (readSignature r.interfaceOf text).result = .ok s → s.Printable →
      (readSignature (r.rememberAll (readSignature r.interfaceOf text).mentions).interfaceOf s.render).result =
          .ok { s with text := s.render } ∧
        ({ s with text := s.render } : Signature).render = s.render) := by
  constructor
  · intro text typeParams t hparse hprint
    have hread : t.Read ⟨typeParams, r.interfaceOf⟩ := readType_read hparse
    exact readType_render (hread.finds (r.finds_rememberAll _)) hprint
  · intro text s hparse hprint
    have hread := readSignature_read hparse
    exact ⟨readSignature_render (hread.finds (r.finds_rememberAll _)) hprint, rfl⟩

/-- An interface, or a record with one field. -/
def indexOrRecord : TypeExpr :=
  .union [.interface "_ToInt" [⟨"__index__", none, false⟩], .record [⟨.str "a", .literal (.str "it's"), true⟩] none]

/-- A signature with a type variable and a symbol. -/
def acknowledging : Signature :=
  { typeParams := ["T"], params := { required := [⟨.typeVar "T", some "x"⟩], rest := some ⟨.optional (.typeVar "T"), none⟩ },
    result := .literal (.symbol "ok"), text := "[T](T x,*T ?)->:ok" }

theorem parse_render_initial :
    ((initial.parseType "_ToInt|\x7b'a'=>\"it's\"\x7d" []).2.parseType indexOrRecord.render []).1 = .ok indexOrRecord ∧
      (readSignature (initial.rememberAll (readSignature initial.interfaceOf acknowledging.text).mentions).interfaceOf
        acknowledging.render).result = .ok { acknowledging with text := acknowledging.render } := by
  have hleaf : ∀ t : TypeExpr, t.children = [] → t.NodePrintable → t.Printable := fun t hchildren ht =>
    TypeExpr.everywhere_iff.2 ⟨ht, by rw [hchildren]; nofun⟩
  have hrecord : (TypeExpr.record [⟨.str "a", .literal (.str "it's"), true⟩] none).Printable :=
    TypeExpr.everywhere_iff.2 ⟨by decide +kernel, List.forall_mem_singleton.2 (hleaf _ rfl (by decide +kernel))⟩
  have htype : indexOrRecord.Printable :=
    TypeExpr.everywhere_iff.2 ⟨trivial, List.forall_mem_cons.2 ⟨hleaf _ rfl trivial, List.forall_mem_singleton.2 hrecord⟩⟩
  have hvar : (TypeExpr.typeVar "T").Printable := hleaf _ rfl trivial
  have hrest : (TypeExpr.optional (.typeVar "T")).Printable :=
    TypeExpr.everywhere_iff.2 ⟨trivial, List.forall_mem_singleton.2 hvar⟩
  have hsignature : acknowledging.Printable :=
    List.forall_mem_cons.2 ⟨hvar, List.forall_mem_cons.2 ⟨hrest, List.forall_mem_singleton.2 (hleaf _ rfl (by decide +kernel))⟩⟩
  exact ⟨(parse_render initial).1 _ [] _ (by cbv) htype, ((parse_render initial).2 _ _ (by cbv) hsignature).1⟩

end Registry

end Conformance
