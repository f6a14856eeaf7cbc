import Mathlib
import Conformance.Registry
import Conformance.Proofs.Cutting
import Conformance.Proofs.Parallel

/-!
# Layout

What a token is written with is read back as that token wherever it stands by itself: after the beginning of the text or a
blank, and before a blank or the end (`lexeme?_written`).  So the lexemes of a text, set with one blank between them, have
the same tokens, though a colon may have stood next to a word, or a star next to a star, before.

Readers do not look at places, and so a text and its respaced form are read alike (`respacing_reads_alike`).
-/

namespace Conformance

variable {rest : List Char} {previous : Option Char}

namespace Token

/-! ## Tokens that stand by themselves -/

/-- Nothing follows, or a blank does. -/
def Apart (rest : List Char) : Prop := ∀ c ∈ rest.head?, c = ' '

theorem Apart.follows (h : Apart rest) (p : Piece) : Follows p rest := by
  refine ⟨fun _ c hc => ?_, fun _ hc => ?_, fun _ c hc => h c hc⟩
  · rw [h c hc]
    decide
  · cases h '*' hc

theorem lexeme?_quotedSymbol {quote : Char} (hquote : isQuote quote = true) {content : List Char}
    (hcontent : ∀ c ∈ content, c ≠ quote) (hprevious : endsWord previous = false) (rest : List Char) :
    lexeme? previous (':' :: quote :: (content ++ [quote]) ++ rest) =
      some ⟨.symbol (String.ofList (unescape content)), (':' :: quote :: (content ++ [quote])).length⟩ := by
  have hcolon : (':' == quote) = false := by
    rw [beq_eq_false_iff_ne]
    rintro rfl
    cases hquote
  have hstart : Text.isWordStart quote = false := by
    rcases Bool.or_eq_true_iff.1 hquote with h | h <;> rw [beq_iff_eq.1 h] <;> rfl
  have hmark : markAt? firstMarks (':' :: quote :: (content ++ quote :: rest)) = none := by
    simp [markAt?, firstMarks, Mark.chars, List.isPrefixOf, hcolon]
  have htake : (content ++ quote :: rest).takeWhile (· != quote) = content :=
    takeWhile_append_of_head (fun c hc => by simpa using hcontent c hc) fun c hc => by
      cases hc
      simp
  have hsymbol : symbolAt? (quote :: (content ++ quote :: rest)) =
      some ⟨.symbol (String.ofList (unescape content)), 3 + content.length⟩ := by
    rw [symbolAt?, if_neg (by simp [hstart]), if_pos hquote]
    dsimp only
    rw [htake, if_pos (by simp)]
  have hlength : (':' :: quote :: (content ++ [quote])).length = 3 + content.length := by
    rw [List.length_cons, List.length_cons, List.length_append, List.length_singleton]
    omega
  rw [hlength, List.cons_append, List.cons_append, List.append_assoc, List.singleton_append]
  unfold lexeme?
  rw [hmark]
  simp [hprevious, hsymbol]

/-- By itself, what a token is written with is read as that token. -/
theorem lexeme?_written {kind : TokenKind} {chars : List Char} (h : Written kind chars)
    (hprevious : endsWord previous = false) (hrest : Apart rest) :
    lexeme? previous (chars ++ rest) = some ⟨kind, chars.length⟩ := by
  cases h with
  | mark m => exact lexeme?_mark (hrest.follows _)
  | word hs => exact lexeme?_word hs previous (hrest.follows _)
  | symbol hs => exact lexeme?_symbol hs hprevious (hrest.follows _)
  | quotedSymbol hquote hcontent => exact lexeme?_quotedSymbol hquote hcontent hprevious rest
  | integer minus hne hdigits =>
    refine lexeme?_digits minus hne hdigits (fun c hc => ?_) previous
    rw [hrest c hc]
    decide
  | string hquote hcontent => exact lexeme?_quoted hquote (hcontent rest) previous

end Token

/-- The face is that of a token: what it is written with means its kind, and can be read. -/
structure Face.Legible (f : Face) : Prop where
  written : Token.Written f.kind f.lexeme.toList
  short : Token.digitOverflow? ⟨f.kind, f.lexeme.toList.length⟩ f.lexeme.toList = none

namespace Token

/-- Without unexpected characters, every token but the end is legible. -/
theorem Cut.legible {source : String} {before : List Char} {stream : Stream} (h : Cut source before rest stream)
    (hclean : stream.diagnostics = []) : ∃ fs, stream.tokens.map face = fs ++ [.final] ∧ ∀ f ∈ fs, f.Legible := by
  induction h with
  | done before => exact ⟨[], rfl, by simp⟩
  | space _ _ ih => exact ih hclean
  | @token before chars rest kind stream hwritten hshort _ ih =>
    obtain ⟨fs, hfaces, hfs⟩ := ih hclean
    refine ⟨⟨kind, String.ofList chars⟩ :: fs, by rw [List.map_cons, hfaces]; rfl, ?_⟩
    refine List.forall_mem_cons.2 ⟨⟨?_, ?_⟩, hfs⟩
    · rw [String.toList_ofList]
      exact hwritten
    · rw [String.toList_ofList]
      exact hshort
  | unexpected _ _ => cases hclean

/-- Legible faces, written with one blank between them, are read back. -/
theorem scan_spaced (source : String) {fs : List Face} (hfs : ∀ f ∈ fs, f.Legible)
    (hprevious : endsWord previous = false) (here : Position) : ∃ tokens, tokens.map face = fs ++ [.final] ∧
      scan source 0 previous here ([' '].intercalate (fs.map (·.lexeme.toList))) = .ok ⟨tokens, []⟩ := by
  induction fs generalizing previous here with
  | nil => exact ⟨[⟨.endOfText, "", here.span 0⟩], rfl, rfl⟩
  | cons f fs ih =>
    have hf := hfs f List.mem_cons_self
    obtain ⟨c, cs, hcs, hspace⟩ := hf.written.head
    -- What follows the first lexeme: nothing, or a blank and the other lexemes.
    obtain ⟨rest, hrest, hrow, htokens⟩ : ∃ rest, Apart rest ∧
        [' '].intercalate ((f :: fs).map (·.lexeme.toList)) = f.lexeme.toList ++ rest ∧
        ∀ previous here, ∃ tokens, tokens.map face = fs ++ [.final] ∧
          scan source 0 previous here rest = .ok ⟨tokens, []⟩ := by
      cases fs with
      | nil =>
        refine ⟨[], by simp [Apart], by simp, fun previous here => ?_⟩
        exact ⟨[⟨.endOfText, "", here.span 0⟩], rfl, rfl⟩
      | cons g gs =>
        refine ⟨' ' :: [' '].intercalate ((g :: gs).map (·.lexeme.toList)), by simp [Apart], by simp [List.intercalate_cons_cons],
          fun previous here => ?_⟩
        exact ih (fun x hx => hfs x (List.mem_cons_of_mem _ hx)) rfl (here.after ' ')
    have hlexeme := lexeme?_written hf.written hprevious hrest
    have hshort := hf.short
    rw [← digitOverflow?_append _ _ rest] at hshort
    rw [hrow]
    rw [hcs] at hlexeme hshort ⊢
    obtain ⟨tokens, hfaces, hscan⟩ := htokens ((c :: cs).getLast?.or previous) ((c :: cs).foldl Position.after here)
    rw [scan_token source hspace hlexeme hshort, hscan]
    refine ⟨_, ?_, rfl⟩
    rw [List.map_cons, hfaces, face, ← hcs, String.ofList_toList]
    rfl

/-- The lexemes of the tokens with one blank between them; the end has none. -/
def respaced (tokens : List Token) : String :=
  " ".intercalate ((tokens.filter (·.kind != .endOfText)).map (·.lexeme))

theorem toList_respaced {tokens : List Token} {fs : List Face} (hfaces : tokens.map face = fs ++ [.final])
    (hfs : ∀ f ∈ fs, f.Legible) : (respaced tokens).toList = [' '].intercalate (fs.map (·.lexeme.toList)) := by
  have hkept : (tokens.filter (·.kind != .endOfText)).map face = fs := by
    have hfilter : (tokens.map face).filter (·.kind != .endOfText) = fs := by
      rw [hfaces, List.filter_append, List.filter_eq_self.2 fun f hf => by simpa using (hfs f hf).written.kind_ne.1]
      exact List.append_nil fs
    rw [List.filter_map] at hfilter
    exact hfilter
  have hlexemes : (tokens.filter (·.kind != .endOfText)).map (·.lexeme) = fs.map (·.lexeme) := by
    rw [← hkept, List.map_map]
    rfl
  rw [respaced, hlexemes, String.toList_intercalate, List.map_map]
  rfl

/-- A text without unexpected characters has the same tokens as its respaced form, their places apart. -/
theorem tokenize_respaced {source : String} {stream : Stream} (h : tokenize source = .ok stream)
    (hclean : stream.diagnostics = []) :
    ∃ again, tokenize (respaced stream.tokens) = .ok again ∧ again.diagnostics = [] ∧
      again.tokens.map face = stream.tokens.map face := by
  obtain ⟨fs, hfaces, hfs⟩ := (tokenize_cut h).legible hclean
  obtain ⟨tokens, htokens, hagain⟩ :=
    scan_spaced (respaced stream.tokens) hfs (rfl : endsWord none = false) {}
  rw [← toList_respaced hfaces hfs] at hagain
  exact ⟨_, hagain, rfl, htokens.trans hfaces.symm⟩

end Token

namespace Registry

/-! ## Reading a respaced text -/

/-- Texts with the same tokens are read alike by a reader that does not look at places. -/
theorem readWith_of_faces {α : Type} {text text' : String} {stream stream' : Token.Stream}
    (h : Token.tokenize text = .ok stream) (h' : Token.tokenize text' = .ok stream')
    (hclean : stream.diagnostics = []) (hclean' : stream'.diagnostics = [])
    (hfaces : stream'.tokens.map Token.face = stream.tokens.map Token.face) {p : Parser Fault α}
    (hp : Parser.Parallel none α (Parser.Kept True) p p) :
    (readWith text' p).result.toOption = (readWith text p).result.toOption ∧
      (readWith text' p).mentions = (readWith text p).mentions := by
  unfold readWith
  rw [h, h']
  dsimp only
  rw [if_pos (by simp [hclean']), if_pos (by simp [hclean])]
  rcases hp [] ⟨stream.tokens, []⟩ ⟨stream'.tokens, []⟩ (.of_faces hfaces.symm) rfl with
    ⟨e, hrun, hstop⟩ | ⟨a, a', c, c', hrun, hrun', hkept, -, hmentions⟩
  · obtain ⟨e', hrun', hmentions, -⟩ := hstop fun _ hnone => absurd hnone (by simp)
    rw [hrun, hrun']
    exact ⟨rfl, hmentions⟩
  · rw [hrun, hrun']
    exact ⟨congrArg some (hkept trivial).symm, hmentions⟩

/-- The text of a signature is all that it keeps of its layout. -/
theorem wholeSignature_text (resolve : Resolve) (text text' : String) :
    Parser.wholeSignature resolve text' =
      (fun s : Signature => { s with text := text' }) <$> Parser.wholeSignature resolve text := by
  simp [Parser.wholeSignature]

theorem readWith_map {α β : Type} (text : String) (f : α → β) (p : Parser Fault α) :
    (readWith text (f <$> p)).result.toOption = (readWith text p).result.toOption.map f ∧
      (readWith text (f <$> p)).mentions = (readWith text p).mentions := by
  unfold readWith
  split
  · exact ⟨rfl, rfl⟩
  · rename_i stream _
    split
    · rw [StateT.run_map]
      cases p.run ⟨stream.tokens, []⟩ <;> exact ⟨rfl, rfl⟩
    · exact ⟨rfl, rfl⟩

/-- Layout does not matter: the lexemes of a text with one blank between them have the same tokens as the text, and
both are accepted or both refused as a type and as a signature, with the same tree and the same interfaces looked up.
Only the text of a signature shows the difference. -/
theorem respacing_reads_alike {source : String} {stream : Token.Stream} (h : Token.tokenize source = .ok stream)
    (hclean : stream.diagnostics = []) :
    (∃ again, Token.tokenize (Token.respaced stream.tokens) = .ok again ∧ again.diagnostics = [] ∧
        again.tokens.map Token.face = stream.tokens.map Token.face) ∧
      ∀ r : Registry,
        (∀ names, (r.parseType (Token.respaced stream.tokens) names).1.toOption = (r.parseType source names).1.toOption ∧
          (r.parseType (Token.respaced stream.tokens) names).2 = (r.parseType source names).2) ∧
        (readSignature r.interfaceOf (Token.respaced stream.tokens)).result.toOption =
          (readSignature r.interfaceOf source).result.toOption.map
            (fun s => { s with text := Token.respaced stream.tokens }) ∧
        (readSignature r.interfaceOf (Token.respaced stream.tokens)).mentions =
          (readSignature r.interfaceOf source).mentions := by
  obtain ⟨again, hagain, hclean', hfaces⟩ := Token.tokenize_respaced h hclean
  refine ⟨⟨again, hagain, hclean', hfaces⟩, fun r => ⟨fun names => ?_, ?_⟩⟩
  · obtain ⟨hresult, hmentions⟩ := readWith_of_faces h hagain hclean hclean' hfaces
      (Parser.congruence_parallel.wholeType (Parser.parallel_lookup r.interfaceOf) names)
    exact ⟨hresult, by rw [parseType, parseType, readType, readType, hmentions]⟩
  · obtain ⟨hresult, hmentions⟩ := readWith_of_faces h hagain hclean hclean' hfaces
      (Parser.congruence_parallel.wholeSignature (Parser.parallel_lookup r.interfaceOf) (Token.respaced stream.tokens))
    obtain ⟨htext, hsame⟩ := readWith_map source (fun s : Signature => { s with text := Token.respaced stream.tokens })
      (Parser.wholeSignature r.interfaceOf source)
    rw [← wholeSignature_text] at htext hsame
    exact ⟨hresult.trans htext, hmentions.trans hsame⟩

theorem respacing_reads_alike_tight :
    ∃ stream, Token.tokenize "(::A,*:a|'s',k:b,?c:-1,**^(*x?)->:e)->1?" = .ok stream ∧ stream.diagnostics = [] ∧
      Token.respaced stream.tokens = "( :: A , * :a | 's' , k : b , ? c : -1 , ** ^ ( * x ? ) -> :e ) -> 1 ?" ∧
      (readSignature Registry.initial.interfaceOf "(::A,*:a|'s',k:b,?c:-1,**^(*x?)->:e)->1?").result.isOk = true ∧
      ∀ r : Registry,
        (readSignature r.interfaceOf "( :: A , * :a | 's' , k : b , ? c : -1 , ** ^ ( * x ? ) -> :e ) -> 1 ?").result.toOption =
          (readSignature r.interfaceOf "(::A,*:a|'s',k:b,?c:-1,**^(*x?)->:e)->1?").result.toOption.map
            (fun s => { s with text := "( :: A , * :a | 's' , k : b , ? c : -1 , ** ^ ( * x ? ) -> :e ) -> 1 ?" }) := by
  have hrun : (Token.tokenize "(::A,*:a|'s',k:b,?c:-1,**^(*x?)->:e)->1?").map
      (fun stream => (stream.diagnostics, Token.respaced stream.tokens)) =
        .ok ([], "( :: A , * :a | 's' , k : b , ? c : -1 , ** ^ ( * x ? ) -> :e ) -> 1 ?") := by cbv
  have haccepted : (readSignature Registry.initial.interfaceOf
      "(::A,*:a|'s',k:b,?c:-1,**^(*x?)->:e)->1?").result.isOk = true := by cbv
  cases htokens : Token.tokenize "(::A,*:a|'s',k:b,?c:-1,**^(*x?)->:e)->1?" with
  | error e =>
    rw [htokens] at hrun
    cases hrun
  | ok stream =>
    rw [htokens] at hrun
    obtain ⟨hclean, hspaced⟩ := Prod.mk.inj (Except.ok.inj hrun)
    have halike := (respacing_reads_alike htokens hclean).2
    rw [hspaced] at halike
    exact ⟨stream, rfl, hclean, hspaced, haccepted, fun r => (halike r).2.1⟩

end Registry

end Conformance
