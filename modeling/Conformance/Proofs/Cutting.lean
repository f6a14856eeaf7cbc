import Mathlib
import Conformance.Proofs.Lexing

/-!
# Texts cut into tokens

`Written` says what each kind of token is written with, and `Cut` how the rest of a text falls into tokens, white space
and unexpected characters, with the place of each.  Reading a text cuts it like that, unless an integer in it has too
many digits (`scan_cases`).

It follows that every token of a text spells what it means (`Cut.faithful`), that nothing of the text is lost, and
that every token is where its span says (`Located`, `tokenize_located`).
-/

namespace Conformance

namespace Position

/-- The position after the characters that a text begins with. -/
def past (before : List Char) : Position where
  offset := before.length
  line := 1 + before.count '\n'
  column := 1 + (before.reverse.takeWhile (· != '\n')).length

theorem past_concat (before : List Char) (c : Char) : past (before ++ [c]) = (past before).after c := by
  unfold past after
  rw [List.reverse_append, List.reverse_singleton, List.singleton_append, List.takeWhile_cons, List.count_append,
    List.length_append]
  by_cases hc : c = '\n'
  · subst hc
    rfl
  · simp [hc, Nat.add_assoc]

theorem past_append (before cs : List Char) : past (before ++ cs) = cs.foldl after (past before) := by
  induction cs generalizing before with
  | nil => rw [List.append_nil, List.foldl_nil]
  | cons c cs ih =>
    rw [List.foldl_cons, ← past_concat, ← ih, List.append_assoc, List.singleton_append]

end Position

namespace Token

variable {cs chars before : List Char} {l : Lexeme} {kind : TokenKind} {stream : Stream}

/-- What a token of some kind is written with. -/
inductive Written : TokenKind → List Char → Prop
  | mark (m : Mark) : Written (.mark m) m.chars
  | word {s : String} (hs : Text.isWord s = true) : Written (Piece.wordKind s) s.toList
  | symbol {s : String} (hs : Text.isWord s = true) : Written (.symbol s) (':' :: s.toList)
  | quotedSymbol {quote : Char} {content : List Char} (hquote : isQuote quote = true)
      (hcontent : ∀ c ∈ content, c ≠ quote) :
      Written (.symbol (String.ofList (unescape content))) (':' :: quote :: (content ++ [quote]))
  | integer (minus : Bool) {digits : List Char} (hne : digits ≠ []) (hdigits : ∀ c ∈ digits, Text.isDigit c = true) :
      Written (.integer (if minus then -(Text.readDigits digits : Int) else Text.readDigits digits))
        ((if minus then ['-'] else []) ++ digits)
  | string {quote : Char} {content : List Char} (hquote : isQuote quote = true)
      (hcontent : ∀ rest, stringContent? quote (content ++ quote :: rest) = some content) :
      Written (.string (String.ofList (unescape content))) (quote :: (content ++ [quote]))

theorem stringContent?_some {quote : Char} {content : List Char} (h : stringContent? quote cs = some content) :
    (∃ rest, cs = content ++ quote :: rest) ∧
      ∀ rest, stringContent? quote (content ++ quote :: rest) = some content := by
  fun_induction stringContent? quote cs generalizing content with
  | case1 => cases h
  | case2 c hc =>
    cases h
    rw [beq_iff_eq] at hc
    subst hc
    refine ⟨⟨[], rfl⟩, fun rest => ?_⟩
    cases rest <;> simp [stringContent?]
  | case3 c hc => cases h
  | case4 c d cs hc =>
    cases h
    rw [beq_iff_eq] at hc
    subst hc
    refine ⟨⟨d :: cs, rfl⟩, fun rest => ?_⟩
    cases rest <;> simp [stringContent?]
  | case5 c d cs hc hslash hbreak => cases h
  | case6 c d cs hc hslash hbreak ih =>
    obtain ⟨content, hcontent, rfl⟩ := Option.map_eq_some_iff.1 h
    obtain ⟨⟨rest, rfl⟩, hclosed⟩ := ih hcontent
    refine ⟨⟨rest, rfl⟩, fun rest => ?_⟩
    simp [stringContent?, hc, hslash, hbreak, hclosed]
  | case7 c d cs hc hslash ih =>
    obtain ⟨content, hcontent, rfl⟩ := Option.map_eq_some_iff.1 h
    obtain ⟨⟨rest, hrest⟩, hclosed⟩ := ih hcontent
    refine ⟨⟨rest, by rw [hrest]; rfl⟩, fun rest => ?_⟩
    obtain ⟨e, es, hes⟩ := List.exists_cons_of_ne_nil (show content ++ quote :: rest ≠ [] by simp)
    have hnext := hclosed rest
    rw [hes] at hnext
    rw [List.cons_append, hes, stringContent?, hnext]
    simp [hc, hslash]

/-- The text begins with what the token is written with. -/
abbrev Lexeme.Begins (l : Lexeme) (cs : List Char) : Prop :=
  ∃ chars rest, cs = chars ++ rest ∧ l.length = chars.length ∧ Written l.kind chars

theorem written_of_markAt? {marks : List Mark} (h : markAt? marks cs = some l) : l.Begins cs := by
  obtain ⟨m, hm, rfl⟩ := Option.map_eq_some_iff.1 h
  have hstarts := List.find?_some hm
  obtain ⟨rest, rfl⟩ := List.isPrefixOf_iff_prefix.1 hstarts
  exact ⟨m.chars, rest, rfl, rfl, .mark m⟩

theorem written_of_symbolAt? (h : symbolAt? cs = some l) : l.Begins (':' :: cs) := by
  cases cs with
  | nil => cases h
  | cons c cs =>
    rw [symbolAt?] at h
    by_cases hc : Text.isWordStart c = true
    · rw [if_pos hc] at h
      cases h
      have hwritten := Written.symbol (Text.isWord_word hc cs)
      rw [String.toList_ofList] at hwritten
      refine ⟨_, (c :: cs).dropWhile Text.isWordPart, ?_, ?_, hwritten⟩
      · rw [List.cons_append, word, List.takeWhile_append_dropWhile]
      · rw [List.length_cons, Nat.add_comm]
    · rw [if_neg hc] at h
      by_cases hquote : isQuote c = true
      · rw [if_pos hquote] at h
        dsimp only at h
        split at h
        · rename_i hclosed
          cases h
          -- What is left after the content begins with the quote that ends it.
          obtain ⟨d, rest, hrest⟩ : ∃ d rest, cs.dropWhile (· != c) = d :: rest := by
            refine List.exists_cons_of_ne_nil fun hnil => ?_
            have happend := List.takeWhile_append_dropWhile (p := (· != c)) (l := cs)
            rw [hnil, List.append_nil] at happend
            rw [happend] at hclosed
            exact absurd hclosed (Nat.lt_irrefl _)
          have hd : d = c := by
            have hhead := List.head?_dropWhile_not (· != c) cs
            rw [hrest] at hhead
            simpa using hhead
          subst hd
          refine ⟨_, rest, ?_, ?_, .quotedSymbol hquote fun x hx => by simpa using List.mem_takeWhile_imp hx⟩
          · rw [List.cons_append, List.cons_append, List.append_assoc, List.singleton_append, ← hrest,
              List.takeWhile_append_dropWhile]
          · simp only [List.length_cons, List.length_append, List.length_nil]
            omega
        · cases h
      · rw [if_neg hquote] at h
        cases h

theorem written_of_integerAt? (h : integerAt? cs = some l) : l.Begins cs := by
  obtain ⟨minus, digits, rest, rfl, hne, hdigits, rfl⟩ := integerAt?_some h
  refine ⟨_, rest, rfl, ?_, .integer minus hne hdigits⟩
  rw [List.length_append]
  cases minus <;> rfl

theorem written_of_stringAt? (h : stringAt? cs = some l) : l.Begins cs := by
  cases cs with
  | nil => cases h
  | cons c cs =>
    rw [stringAt?] at h
    by_cases hquote : isQuote c = true
    · rw [if_pos hquote] at h
      obtain ⟨content, hcontent, rfl⟩ := Option.map_eq_some_iff.1 h
      obtain ⟨⟨rest, rfl⟩, hclosed⟩ := stringContent?_some hcontent
      refine ⟨_, rest, by simp, ?_, .string hquote hclosed⟩
      simp only [List.length_cons, List.length_append, List.length_nil]
      omega
    · rw [if_neg hquote] at h
      cases h

theorem written_of_wordAt? (h : wordAt? cs = some l) : l.Begins cs := by
  cases cs with
  | nil => cases h
  | cons c cs =>
    rw [wordAt?] at h
    by_cases hc : Text.isWordStart c = true
    · rw [if_pos hc] at h
      cases h
      have hwritten := Written.word (Text.isWord_word hc cs)
      rw [String.toList_ofList, Piece.wordKind] at hwritten
      refine ⟨word (c :: cs), (c :: cs).dropWhile Text.isWordPart, List.takeWhile_append_dropWhile.symm, rfl, ?_⟩
      cases hk : Keyword.ofText? (String.ofList (word (c :: cs))) with
      | none => simpa [hk] using hwritten
      | some k => simpa [hk] using hwritten
    · rw [if_neg hc] at h
      cases h

/-- A token takes the characters that write it. -/
theorem written_of_lexeme? {previous : Option Char} (h : lexeme? previous cs = some l) : l.Begins cs := by
  unfold lexeme? at h
  simp only [Option.orElse_eq_orElse, Option.orElse_eq_or, Option.or_eq_some_iff] at h
  rcases h with h | ⟨-, h | ⟨-, h | ⟨-, h | ⟨-, h | ⟨-, h⟩⟩⟩⟩⟩
  · exact written_of_markAt? h
  · split at h
    · split at h
      · cases h
      · exact written_of_symbolAt? h
    · cases h
  · exact written_of_markAt? h
  · exact written_of_integerAt? h
  · exact written_of_stringAt? h
  · exact written_of_wordAt? h

theorem isSpace_of_isDigit {c : Char} (hc : Text.isDigit c = true) : Text.isSpace c = false := by
  -- The blocks of digits outside ASCII lie between the spaces there.
  have hblocks : ∀ z ∈ Text.digitZeros.toList,
      0xA0 < z ∧ z + 9 < 0x1680 ∨ 0x1680 < z ∧ z + 9 < 0x2000 ∨ 0x3000 < z := by decide
  obtain ⟨d, hd⟩ := Option.isSome_iff_exists.1 hc
  unfold Text.digitValue? at hd
  split at hd
  · split at hd
    · rename_i hdigit
      have hrange : 48 ≤ c.toNat ∧ c.toNat ≤ 57 := Char.isDigit_iff_toNat.1 hdigit
      simp [Text.isSpace]
      omega
    · cases hd
  · obtain ⟨z, hz, -⟩ := Option.map_eq_some_iff.1 hd
    have hblock := hblocks z (Array.mem_toList_iff.2 (Array.mem_of_find?_eq_some hz))
    have hrange := Array.find?_some hz
    simp only [Bool.and_eq_true, decide_eq_true_eq] at hrange
    simp [Text.isSpace]
    omega

/-- What a token is written with begins with a character that is no white space. -/
theorem Written.head (h : Written kind chars) : ∃ c cs, chars = c :: cs ∧ Text.isSpace c = false := by
  have hquote : ∀ {quote}, isQuote quote = true → Text.isSpace quote = false := by
    intro quote hquote
    rcases Bool.or_eq_true_iff.1 hquote with h | h <;> rw [beq_iff_eq.1 h] <;> rfl
  cases h with
  | mark m => cases m <;> exact ⟨_, _, rfl, by decide⟩
  | word hs =>
    obtain ⟨c, cs, hcs, hc, -⟩ := Text.isWord_iff.1 hs
    have hrange := Text.toNat_of_isWordStart hc
    refine ⟨c, cs, hcs, ?_⟩
    simp [Text.isSpace]
    omega
  | symbol hs | quotedSymbol _ _ => exact ⟨':', _, rfl, by decide⟩
  | @integer minus digits hne hdigits =>
    cases minus with
    | true => exact ⟨'-', _, rfl, by decide⟩
    | false =>
      obtain ⟨d, ds, rfl⟩ := List.exists_cons_of_ne_nil hne
      exact ⟨d, ds, rfl, isSpace_of_isDigit (hdigits d List.mem_cons_self)⟩
  | string hq _ => exact ⟨_, _, rfl, hquote hq⟩

theorem Written.length_pos (h : Written kind chars) : 0 < chars.length := by
  obtain ⟨c, cs, rfl, -⟩ := h.head
  exact Nat.succ_pos _

theorem Written.kind_ne (h : Written kind chars) : kind ≠ .endOfText ∧ kind ≠ .unexpected := by
  cases h with
  | @word s hs =>
    unfold Piece.wordKind
    cases Keyword.ofText? s <;> exact ⟨by rintro ⟨⟩, by rintro ⟨⟩⟩
  | _ => exact ⟨by rintro ⟨⟩, by rintro ⟨⟩⟩

/-! ## Cutting a text -/

/-- How the rest of a text is cut into tokens, after the characters before it. -/
inductive Cut (source : String) : (before rest : List Char) → Stream → Prop
  | done (before : List Char) : Cut source before [] ⟨[⟨.endOfText, "", (Position.past before).span 0⟩], []⟩
  | space {before rest : List Char} {c : Char} {stream : Stream} (hc : Text.isSpace c = true)
      (next : Cut source (before ++ [c]) rest stream) : Cut source before (c :: rest) stream
  | token {before chars rest : List Char} {kind : TokenKind} {stream : Stream} (hwritten : Written kind chars)
      (hshort : digitOverflow? ⟨kind, chars.length⟩ chars = none)
      (next : Cut source (before ++ chars) rest stream) :
      Cut source before (chars ++ rest)
        ⟨⟨kind, String.ofList chars, (Position.past before).span chars.length⟩ :: stream.tokens, stream.diagnostics⟩
  | unexpected {before rest : List Char} {c : Char} {stream : Stream}
      (next : Cut source (before ++ [c]) rest stream) :
      Cut source before (c :: rest)
        ⟨⟨.unexpected, String.singleton c, (Position.past before).span 1⟩ :: stream.tokens,
          unexpectedCharacter source c ((Position.past before).span 1) :: stream.diagnostics⟩

/-- Somewhere in the text stands an integer with too many digits, and the failure says how many. -/
def Overlong (text : List Char) (e : TooManyDigits) : Prop :=
  ∃ (before : List Char) (minus : Bool) (digits rest : List Char) (n : Int),
    text = before ++ ((if minus then ['-'] else []) ++ digits ++ rest) ∧ (∀ c ∈ digits, Text.isDigit c = true) ∧
      lexeme? before.getLast? ((if minus then ['-'] else []) ++ digits ++ rest) =
        some ⟨.integer n, (if minus then 1 else 0) + digits.length⟩ ∧
      e.digits = digits.length ∧ Text.digitLimit < digits.length

theorem digitOverflow?_append (kind : TokenKind) (chars rest : List Char) :
    digitOverflow? ⟨kind, chars.length⟩ (chars ++ rest) = digitOverflow? ⟨kind, chars.length⟩ chars := by
  simp only [digitOverflow?, List.take_left', List.take_length]

theorem digitOverflow?_integer (n : Int) (minus : Bool) {digits : List Char} (hdigits : ∀ c ∈ digits, Text.isDigit c = true) :
    digitOverflow? ⟨.integer n, ((if minus then ['-'] else []) ++ digits).length⟩ ((if minus then ['-'] else []) ++ digits) =
      if Text.digitLimit < digits.length then some ⟨digits.length⟩ else none := by
  have hcount : ((if minus then ['-'] else []) ++ digits).countP Text.isDigit = digits.length := by
    rw [List.countP_append, List.countP_eq_length.2 hdigits]
    cases minus
    · exact Nat.zero_add _
    · exact Nat.zero_add _
  simp only [digitOverflow?, List.take_length, hcount]

/-- A token spells what it means. -/
theorem Written.faithful (h : Written kind chars) (hshort : digitOverflow? ⟨kind, chars.length⟩ chars = none)
    (span : Span) : Faithful ⟨kind, String.ofList chars, span⟩ := by
  cases h with
  | mark m => exact String.toList_ofList
  | @word s hs =>
    rw [String.ofList_toList]
    unfold Piece.wordKind
    cases hk : Keyword.ofText? s with
    | some k => exact (Keyword.text_of_ofText? hk).symm
    | none => exact Text.isName_iff.2 ⟨hs, hk⟩
  | @integer minus digits hne hdigits =>
    rw [digitOverflow?_integer _ minus hdigits] at hshort
    have hlt : Text.readDigits digits < 10 ^ Text.digitLimit :=
      Nat.lt_of_lt_of_le (Text.readDigits_lt _) (Nat.pow_le_pow_right (by decide) (by simpa using hshort))
    cases minus <;> simpa [Faithful] using hlt
  | _ => trivial

/-- Only an integer has too many digits. -/
theorem Written.overlong (h : Written kind chars) {e : TooManyDigits}
    (he : digitOverflow? ⟨kind, chars.length⟩ chars = some e) :
    ∃ (minus : Bool) (digits : List Char) (n : Int), kind = .integer n ∧
      chars = (if minus then ['-'] else []) ++ digits ∧ (∀ c ∈ digits, Text.isDigit c = true) ∧
      e.digits = digits.length ∧ Text.digitLimit < digits.length := by
  cases h with
  | @integer minus digits hne hdigits =>
    rw [digitOverflow?_integer _ minus hdigits] at he
    split at he
    · rename_i hlong
      cases he
      exact ⟨minus, digits, _, rfl, rfl, hdigits, rfl, hlong⟩
    · cases he
  | @word s hs =>
    unfold Piece.wordKind at he
    cases hk : Keyword.ofText? s <;> rw [hk] at he <;> cases he
  | _ => cases he

/-- The rest of a text is cut into tokens, unless an integer in it is too long. -/
theorem scan_cases (source : String) (before rest : List Char) :
    (∃ stream, scan source 0 before.getLast? (Position.past before) rest = .ok stream ∧
        Cut source before rest stream) ∨
      ∃ e, scan source 0 before.getLast? (Position.past before) rest = .error e ∧ Overlong (before ++ rest) e := by
  -- Each step takes characters from the rest: one, or those that a token is written with.
  induction hn : rest.length using Nat.strong_induction_on generalizing before rest with
  | _ n ih =>
  cases rest with
  | nil => exact .inl ⟨_, rfl, .done before⟩
  | cons c cs =>
    have hone := ih cs.length (by rw [← hn, List.length_cons]; omega) (before ++ [c]) cs rfl
    rw [List.getLast?_concat, Position.past_concat, List.append_assoc, List.singleton_append] at hone
    by_cases hspace : Text.isSpace c = true
    · rw [scan, if_pos hspace]
      rcases hone with ⟨stream, hscan, hcut⟩ | hfailed
      · exact .inl ⟨stream, hscan, .space hspace hcut⟩
      · exact .inr hfailed
    cases hlexeme : lexeme? before.getLast? (c :: cs) with
    | none =>
      rw [scan, if_neg hspace, hlexeme]
      dsimp only
      rcases hone with ⟨stream, hscan, hcut⟩ | ⟨e, hscan, hlong⟩
      · exact .inl ⟨_, by rw [hscan]; rfl, .unexpected hcut⟩
      · exact .inr ⟨e, by rw [hscan]; rfl, hlong⟩
    | some l =>
      obtain ⟨kind, length⟩ := l
      obtain ⟨chars, rest, hcs, hlength, hwritten⟩ := written_of_lexeme? hlexeme
      dsimp only at hlength hwritten
      subst hlength
      cases hoverflow : digitOverflow? ⟨kind, chars.length⟩ chars with
      | some e =>
        rw [scan, if_neg hspace, hlexeme]
        dsimp only
        rw [hcs, digitOverflow?_append, hoverflow]
        obtain ⟨minus, digits, m, rfl, rfl, hdigits, hcount, hlimit⟩ := hwritten.overlong hoverflow
        refine .inr ⟨e, rfl, before, minus, digits, rest, m, rfl, hdigits, ?_, hcount, hlimit⟩
        rw [← hcs, hlexeme, List.length_append]
        cases minus <;> rfl
      | none =>
        obtain ⟨d, ds, rfl, hd⟩ := hwritten.head
        rw [hcs] at hn hlexeme ⊢
        have hrest := ih rest.length (by rw [← hn, List.length_append, List.length_cons]; omega) (before ++ d :: ds)
          rest rfl
        rw [List.getLast?_append, Position.past_append, List.append_assoc] at hrest
        rw [scan_token source hd hlexeme (by rw [digitOverflow?_append]; exact hoverflow)]
        rcases hrest with ⟨stream, hscan, hcut⟩ | ⟨e, hscan, hlong⟩
        · exact .inl ⟨_, by rw [hscan]; rfl, .token hwritten hoverflow hcut⟩
        · exact .inr ⟨e, by rw [hscan]; rfl, hlong⟩

theorem tokenize_cut {source : String} (h : tokenize source = .ok stream) : Cut source [] source.toList stream := by
  rcases scan_cases source [] source.toList with ⟨stream', hscan, hcut⟩ | ⟨e, hscan, -⟩
  · cases hscan.symm.trans h
    exact hcut
  · cases hscan.symm.trans h

/-- Every token of a text spells what it means. -/
theorem Cut.faithful {source : String} {rest : List Char} (h : Cut source before rest stream) :
    ∀ t ∈ stream.tokens, t.Faithful := by
  induction h with
  | done => simp [Faithful]
  | space _ _ ih => exact ih
  | token hwritten hshort _ ih => exact List.forall_mem_cons.2 ⟨hwritten.faithful hshort _, ih⟩
  | unexpected _ ih => exact List.forall_mem_cons.2 ⟨trivial, ih⟩

/-! ## Where the tokens lie -/

/-- Where the characters between the tokens begin and end, from some place on. -/
def gaps (start : Nat) (tokens : List Token) : List (Nat × Nat) :=
  (start :: tokens.map (·.span.stop)).zip (tokens.map (·.span.start))

theorem gaps_cons (start : Nat) (t : Token) (tokens : List Token) :
    gaps start (t :: tokens) = (start, t.span.start) :: gaps t.span.stop tokens := rfl

/-- From some place on, the tokens lie in the text one after the other, with white space between them. -/
structure Located (source : String) (start : Nat) (stream : Stream) : Prop where
  /-- The last token, and no other, is the end of the text, and every other takes some characters. -/
  final : ∃ ts last, stream.tokens = ts ++ [last] ∧
    last.kind = .endOfText ∧ last.span.start = source.length ∧ last.span.stop = source.length ∧
    ∀ t ∈ ts, t.kind ≠ .endOfText ∧ t.span.start < t.span.stop
  between : ∀ gap ∈ gaps start stream.tokens,
    gap.1 ≤ gap.2 ∧ ∀ c ∈ source.toList.extract gap.1 gap.2, Text.isSpace c = true
  lexeme : ∀ t ∈ stream.tokens, t.lexeme.toList = source.toList.extract t.span.start t.span.stop
  line : ∀ t ∈ stream.tokens, t.span.line = 1 + (source.toList.take t.span.start).count '\n'
  column : ∀ t ∈ stream.tokens,
    t.span.column = 1 + ((source.toList.take t.span.start).reverse.takeWhile (· != '\n')).length
  /-- There is a diagnostic for each unexpected character, in their order. -/
  diagnostics : List.Forall₂ (fun d t => ∃ c, t.lexeme = String.singleton c ∧ d = unexpectedCharacter source c t.span)
    stream.diagnostics (stream.tokens.filter (·.kind == .unexpected))

namespace Located

variable {source : String}

theorem done (hsource : source.toList = before) :
    Located source before.length ⟨[⟨.endOfText, "", (Position.past before).span 0⟩], []⟩ := by
  have hlength : source.length = before.length := by rw [← String.length_toList, hsource]
  constructor
  case final => exact ⟨[], _, rfl, rfl, hlength.symm, hlength.symm, by simp⟩
  all_goals simp [gaps, Position.past, Position.span, hsource]

/-- White space before the tokens belongs to the first gap. -/
theorem space {rest : List Char} {c : Char} (hsource : source.toList = before ++ c :: rest)
    (hc : Text.isSpace c = true) (h : Located source (before ++ [c]).length stream) :
    Located source before.length stream := by
  refine { h with between := ?_ }
  obtain ⟨tokens, diagnostics⟩ := stream
  have hbetween := h.between
  cases tokens with
  | nil => simp [gaps]
  | cons t tokens =>
    simp only [gaps_cons, List.forall_mem_cons, List.length_append, List.length_singleton] at hbetween ⊢
    obtain ⟨⟨hle, hspaces⟩, hrest⟩ := hbetween
    refine ⟨⟨by omega, fun d hd => ?_⟩, hrest⟩
    obtain ⟨k, hk⟩ : ∃ k, t.span.start - before.length = k + 1 := ⟨t.span.start - before.length - 1, by omega⟩
    rw [List.extract_eq_take_drop, hsource, List.drop_left' rfl, hk, List.take_succ_cons] at hd
    rcases List.mem_cons.1 hd with rfl | hd
    · exact hc
    · refine hspaces d ?_
      rw [List.extract_eq_take_drop, hsource, ← List.drop_drop, List.drop_left' rfl,
        show t.span.start - (before.length + 1) = k by omega]
      exact hd

/-- A token that takes the next characters comes before the others. -/
theorem cons {rest : List Char} {diagnostics : List Diagnostic} (hsource : source.toList = before ++ (chars ++ rest))
    (hkind : kind ≠ .endOfText) (hchars : 0 < chars.length) (h : Located source (before ++ chars).length stream)
    (hdiagnostics : List.Forall₂
      (fun d t => ∃ c, t.lexeme = String.singleton c ∧ d = unexpectedCharacter source c t.span) diagnostics
      ((⟨kind, String.ofList chars, (Position.past before).span chars.length⟩ :: stream.tokens).filter
        (·.kind == .unexpected))) :
    Located source before.length
      ⟨⟨kind, String.ofList chars, (Position.past before).span chars.length⟩ :: stream.tokens, diagnostics⟩ := by
  have htake : source.toList.take before.length = before := by rw [hsource, List.take_left' rfl]
  constructor
  case final =>
    obtain ⟨ts, last, htokens, hlast, hstart, hstop, hts⟩ := h.final
    refine ⟨_ :: ts, last, by rw [htokens, List.cons_append], hlast, hstart, hstop, ?_⟩
    exact List.forall_mem_cons.2 ⟨⟨hkind, Nat.lt_add_of_pos_right hchars⟩, hts⟩
  case between =>
    rw [gaps_cons, List.forall_mem_cons]
    refine ⟨⟨le_rfl, by simp [Position.span, Position.past]⟩, ?_⟩
    have hbetween := h.between
    rw [List.length_append] at hbetween
    exact hbetween
  case lexeme =>
    refine List.forall_mem_cons.2 ⟨?_, h.lexeme⟩
    simp [Position.span, Position.past, hsource]
  case line =>
    refine List.forall_mem_cons.2 ⟨?_, h.line⟩
    simp [Position.span, Position.past, htake]
  case column =>
    refine List.forall_mem_cons.2 ⟨?_, h.column⟩
    simp [Position.span, Position.past, htake]
  case diagnostics => exact hdiagnostics

end Located

theorem Cut.located {source : String} {rest : List Char} (h : Cut source before rest stream)
    (hsource : source.toList = before ++ rest) : Located source before.length stream := by
  induction h with
  | done before => exact .done (by simpa using hsource)
  | space hc _ ih => exact .space hsource hc (ih (by simpa using hsource))
  | token hwritten _ _ ih =>
    have hrest := ih (by simpa using hsource)
    refine .cons hsource hwritten.kind_ne.1 hwritten.length_pos hrest ?_
    rw [List.filter_cons_of_neg (by simpa using hwritten.kind_ne.2)]
    exact hrest.diagnostics
  | @unexpected before rest c stream _ ih =>
    have hrest := ih (by simpa using hsource)
    change Located source before.length
      ⟨⟨.unexpected, String.ofList [c], (Position.past before).span [c].length⟩ :: stream.tokens, _⟩
    refine .cons hsource (by rintro ⟨⟩) Nat.zero_lt_one hrest ?_
    rw [List.filter_cons_of_pos (by rfl)]
    exact .cons ⟨c, rfl, rfl⟩ hrest.diagnostics

/-- A text is cut into tokens that lie in it one after the other, with all else white space, unless it has an
integer with more digits than can be read. -/
theorem tokenize_located (source : String) :
    (∃ stream, tokenize source = .ok stream ∧ Located source 0 stream) ∨
      ∃ e, tokenize source = .error e ∧ Overlong source.toList e := by
  rcases scan_cases source [] source.toList with ⟨stream, hscan, hcut⟩ | hfailed
  · exact .inl ⟨stream, hscan, hcut.located rfl⟩
  · exact .inr hfailed

end Token
end Conformance
