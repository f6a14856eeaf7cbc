import Mathlib
import Conformance.Proofs.Spelling

/-!
# Printed texts and their tokens

A printed text is a row of pieces, each of them a blank or what one token is written with.  A piece is read back as
the token it stands for when the piece after it does not run into it: a word is not followed by another word, nor a
star by a star, and a colon is followed by a blank (`Piece.Fits`).  Where that holds all along the row, the tokens of
the text are those of its pieces (`tokenize_pieces`).
-/

namespace Conformance

variable {c : Char}

/-- What a reader goes by in a token: its meaning, and what it was written with. -/
structure Face where
  kind : TokenKind
  lexeme : String
  deriving DecidableEq, Repr

/-- What a reader goes by in the token. -/
def Token.face (t : Token) : Face := ⟨t.kind, t.lexeme⟩

/-- The end of a text. -/
def Face.final : Face := ⟨.endOfText, ""⟩

/-- A piece of a printed text. -/
inductive Piece where
  | blank
  | mark (m : Mark)
  | word (s : String)
  | integer (n : Int)
  | string (s : String)
  | symbol (s : String)
  deriving DecidableEq, Repr

namespace Text

/-- Does the text stand for itself between quotes, quotes and backslashes apart? -/
def isPlain (s : String) : Bool := s.toList.all isPrintable

theorem toNat_of_isWordStart (h : isWordStart c = true) :
    65 ≤ c.toNat ∧ c.toNat ≤ 90 ∨ 97 ≤ c.toNat ∧ c.toNat ≤ 122 ∨ c.toNat = 95 := by
  simp only [isWordStart, Char.isAlpha, Char.isUpper, Char.isLower, ge_iff_le, Bool.or_eq_true, Bool.and_eq_true,
    decide_eq_true_eq, UInt32.le_iff_toNat_le, beq_iff_eq] at h
  rcases h with (h | h) | rfl
  · exact .inl h
  · exact .inr (.inl h)
  · exact .inr (.inr rfl)

theorem isDigit_of_isWordStart (h : isWordStart c = true) : isDigit c = false := by
  have hc := toNat_of_isWordStart h
  have hlow : c.toNat < 128 := by omega
  have hdigit : c.isDigit = false := by
    rw [Bool.eq_false_iff]
    intro hdigit
    have hrange : 48 ≤ c.toNat ∧ c.toNat ≤ 57 := Char.isDigit_iff_toNat.1 hdigit
    omega
  simp [isDigit, digitValue?, hlow, hdigit]

end Text

namespace Piece

/-- The piece as written. -/
def chars : Piece → List Char
  | blank => [' ']
  | mark m => m.chars
  | word s => s.toList
  | integer n => (toString n).toList
  | string s => Text.quotedChars s.toList
  | symbol s => ':' :: s.toList

/-- The meaning of a word. -/
def wordKind (s : String) : TokenKind := (Keyword.ofText? s).elim .identifier .keyword

/-- The kind of token that the piece stands for, if it does. -/
def kind? : Piece → Option TokenKind
  | blank => none
  | mark m => some (.mark m)
  | word s => some (wordKind s)
  | integer n => some (.integer n)
  | string s => some (.string s)
  | symbol s => some (.symbol s)

/-- The token that the piece stands for, as a reader sees it. -/
def face? (p : Piece) : Option Face := p.kind?.map (⟨·, String.ofList p.chars⟩)

/-- The piece can be read back by itself. -/
def Valid : Piece → Prop
  | blank | mark _ => True
  | word s | symbol s => Text.isWord s = true
  | string s => Text.isPlain s = true
  | integer n => n.natAbs < 10 ^ Text.digitLimit

/-- Does the piece end in what could be the beginning of a longer one? -/
def isWordy : Piece → Bool
  | word _ | integer _ | symbol _ => true
  | _ => false

/-- Blanks and marks, which do not go on a word. -/
def isGap : Piece → Bool
  | blank | mark _ => true
  | _ => false

/-- The second piece does not run into the first. -/
def Fits (p q : Piece) : Prop :=
  (p.isWordy = true → q.isGap = true) ∧ (p = mark .star → q ≠ mark .star ∧ q ≠ mark .starStar) ∧
    (p = mark .colon → q = blank)

end Piece

/-- The characters of a row of pieces. -/
def Piece.text (ps : List Piece) : List Char := ps.flatMap chars

/-- The tokens of a row of pieces, as a reader sees them. -/
def Piece.faces (ps : List Piece) : List Face := ps.filterMap face?

namespace Token

variable {cs rest : List Char} {previous : Option Char} {s : String} {p : Piece} {quote : Char} {k : TokenKind}

/-! ## Single pieces -/

/-- What may follow the characters of a piece. -/
def Follows (p : Piece) (rest : List Char) : Prop :=
  (p.isWordy = true → ∀ c ∈ rest.head?, Text.isWordPart c = false ∧ Text.isDigit c = false) ∧
    (p = .mark .star → rest.head? ≠ some '*') ∧ (p = .mark .colon → ∀ c ∈ rest.head?, c = ' ')

theorem takeWhile_append_of_head {P : Char → Bool} (hcs : ∀ c ∈ cs, P c = true)
    (hrest : ∀ c ∈ rest.head?, P c = false) : (cs ++ rest).takeWhile P = cs := by
  rw [List.takeWhile_append_of_pos hcs]
  cases rest with
  | nil => simp
  | cons c rest => simp [hrest c rfl]

theorem markAt?_eq_none {marks : List Mark} (h : ∀ m ∈ marks, m.chars.head? ≠ some c) (cs : List Char) :
    markAt? marks (c :: cs) = none := by
  rw [markAt?, Option.map_eq_none_iff, List.find?_eq_none]
  intro m hm hstarts
  obtain ⟨rest, hrest⟩ := List.isPrefixOf_iff_prefix.mp hstarts
  have hhead := h m hm
  cases hchars : m.chars with
  | nil => cases m <;> cases hchars
  | cons d ds =>
    rw [hchars] at hrest hhead
    exact hhead (by rw [(List.cons.inj hrest).1]; rfl)

/-- All marks. -/
def allMarks : List Mark := firstMarks ++ [.colon, .comma]

theorem mem_allMarks (m : Mark) : m ∈ allMarks := by cases m <;> decide

/-- A character of a class that no mark begins with begins no mark. -/
theorem markAt?_of_class {P : Char → Bool} (hP : ∀ m ∈ allMarks, m.chars.head?.any P = false) (hc : P c = true)
    (marks : List Mark) (cs : List Char) : markAt? marks (c :: cs) = none := by
  refine markAt?_eq_none (fun m _ hm => ?_) cs
  have hnot := hP m (mem_allMarks m)
  rw [Option.mem_def.1 hm, Option.any_some, hc] at hnot
  cases hnot

/-- Without a mark at its beginning, a text begins with an integer, a string or a word. -/
theorem lexeme?_of_noMark (hfirst : markAt? firstMarks (c :: cs) = none)
    (hlast : markAt? [.colon, .comma] (c :: cs) = none) (hcolon : c ≠ ':') (previous : Option Char) :
    lexeme? previous (c :: cs) = (integerAt? (c :: cs) <|> stringAt? (c :: cs) <|> wordAt? (c :: cs)) := by
  unfold lexeme?
  rw [hfirst, hlast]
  split
  · rename_i heq
    exact absurd (List.cons.inj heq).1 hcolon
  · simp

theorem integerAt?_unsigned (hminus : c ≠ '-') (cs : List Char) : integerAt? (c :: cs) =
    let digits := (c :: cs).takeWhile Text.isDigit
    if digits.isEmpty then none else some ⟨.integer (Text.readDigits digits), digits.length⟩ := by
  unfold integerAt?
  split
  rename_i minus rest hsign
  split at hsign
  · rename_i heq
    exact absurd (List.cons.inj heq).1 hminus
  · cases hsign
    simp

theorem integerAt?_eq_none (hminus : c ≠ '-') (hdigit : Text.isDigit c = false) (cs : List Char) :
    integerAt? (c :: cs) = none := by
  simp [integerAt?_unsigned hminus, hdigit]

theorem lexeme?_mark {m : Mark} (hrest : Follows (.mark m) rest) :
    lexeme? previous (m.chars ++ rest) = some ⟨.mark m, m.chars.length⟩ := by
  have hstar := hrest.2.1
  have hcolon := hrest.2.2
  cases m
  case star =>
    have hhead := hstar rfl
    cases rest with
    | nil => rfl
    | cons c rest =>
      have hc : ('*' == c) = false := by
        rw [beq_eq_false_iff_ne]
        exact fun h => hhead (by rw [← h]; rfl)
      simp [lexeme?, markAt?, firstMarks, Mark.chars, List.isPrefixOf, hc]
  case colon =>
    have hhead := hcolon rfl
    cases rest with
    | nil => simp [lexeme?, markAt?, firstMarks, Mark.chars, List.isPrefixOf, symbolAt?]
    | cons c rest =>
      cases hhead c rfl
      simp [lexeme?, markAt?, firstMarks, Mark.chars, List.isPrefixOf, symbolAt?, Text.isWordStart, isQuote,
        Text.apostrophe, Text.doubleQuote]
  all_goals simp [lexeme?, markAt?, firstMarks, Mark.chars, List.isPrefixOf]

/-- A text that starts like a name starts with one. -/
theorem lexeme?_of_isWordStart (hc : Text.isWordStart c = true) (previous : Option Char) (cs : List Char) :
    lexeme? previous (c :: cs) = wordAt? (c :: cs) := by
  have hne : ∀ d, Text.isWordStart d = false → c ≠ d := by
    rintro d hd rfl
    rw [hc] at hd
    cases hd
  have hmarks := markAt?_of_class (P := Text.isWordStart) (by decide) hc
  have hstring : stringAt? (c :: cs) = none := by
    have hquote : isQuote c = false := by
      simp [isQuote, hne Text.apostrophe (by decide), hne Text.doubleQuote (by decide)]
    simp [stringAt?, hquote]
  rw [lexeme?_of_noMark (hmarks _ cs) (hmarks _ cs) (hne ':' (by decide)),
    integerAt?_eq_none (hne '-' (by decide)) (Text.isDigit_of_isWordStart hc), hstring]
  simp

theorem word_append (hs : Text.isWord s = true) (hp : p.isWordy = true) (hrest : Follows p rest) :
    word (s.toList ++ rest) = s.toList :=
  takeWhile_append_of_head (fun _ hc => Text.isWordPart_of_isWord hs hc) fun c hc => (hrest.1 hp c hc).1

theorem lexeme?_word (hs : Text.isWord s = true) (previous : Option Char) (hrest : Follows (.word s) rest) :
    lexeme? previous (s.toList ++ rest) = some ⟨Piece.wordKind s, s.toList.length⟩ := by
  have hword := word_append hs rfl hrest
  obtain ⟨c, cs, hcs, hc, -⟩ := Text.isWord_iff.1 hs
  rw [hcs, List.cons_append] at hword ⊢
  rw [lexeme?_of_isWordStart hc, wordAt?, if_pos hc, hword]
  dsimp only
  rw [← hcs, String.ofList_toList, Piece.wordKind]
  cases Keyword.ofText? s <;> rfl

theorem lexeme?_symbol (hs : Text.isWord s = true) (hprevious : endsWord previous = false)
    (hrest : Follows (.symbol s) rest) :
    lexeme? previous (':' :: s.toList ++ rest) = some ⟨.symbol s, s.toList.length + 1⟩ := by
  have hword := word_append hs rfl hrest
  obtain ⟨c, cs, hcs, hc, -⟩ := Text.isWord_iff.1 hs
  have hcolon : (':' == c) = false := by
    rw [beq_eq_false_iff_ne]
    rintro rfl
    cases hc
  have hmark : markAt? firstMarks (':' :: s.toList ++ rest) = none := by
    simp [hcs, markAt?, firstMarks, Mark.chars, List.isPrefixOf, hcolon]
  have hsymbol : symbolAt? (s.toList ++ rest) = some ⟨.symbol s, 1 + s.toList.length⟩ := by
    rw [hcs, List.cons_append] at hword ⊢
    rw [symbolAt?, if_pos hc, hword]
    dsimp only
    rw [← hcs, String.ofList_toList]
  unfold lexeme?
  rw [hmark]
  simp [hprevious, hsymbol, Nat.add_comm]

/-! ## Integers -/

theorem isDigit_of_ascii (h : c.isDigit = true) : Text.isDigit c = true := by
  have hrange : 48 ≤ c.toNat ∧ c.toNat ≤ 57 := Char.isDigit_iff_toNat.1 h
  have hlow : c.toNat < 128 := by omega
  simp [Text.isDigit, Text.digitValue?, hlow, h]

theorem isDigit_of_mem_toDigits {n : Nat} (h : c ∈ Nat.toDigits 10 n) : c.isDigit = true :=
  Nat.isDigit_of_mem_toDigits (by decide) (by decide) h

theorem readDigits_toDigits (n : Nat) : Text.readDigits (Nat.toDigits 10 n) = n := by
  have hvalue : ∀ (m : Nat) (c : Char), c ∈ Nat.toDigits 10 n →
      10 * m + (Text.digitValue? c).getD 0 = 10 * m + (c.toNat - '0'.toNat) := by
    intro m c hc
    have hdigit := isDigit_of_mem_toDigits hc
    have hrange : 48 ≤ c.toNat ∧ c.toNat ≤ 57 := Char.isDigit_iff_toNat.1 hdigit
    have hlow : c.toNat < 128 := by omega
    simp [Text.digitValue?, hlow, hdigit]
  calc Text.readDigits (Nat.toDigits 10 n)
      = Nat.ofDigitChars 10 (Nat.toDigits 10 n) 0 := List.foldl_ext _ _ _ hvalue
    _ = n := Nat.ofDigitChars_toDigits (by decide) (by decide)

/-- The sign of an integer. -/
def sign (n : Int) : List Char := if n < 0 then ['-'] else []

theorem toList_int (n : Int) : (toString n).toList = sign n ++ Nat.toDigits 10 n.natAbs := by
  cases n with
  | ofNat m =>
    change (Nat.repr m).toList = _
    rw [Nat.toList_repr, sign, if_neg (by simp), List.nil_append, Int.natAbs_ofNat']
  | negSucc m =>
    change ("-" ++ Nat.repr (m + 1)).toList = _
    rw [String.toList_append, Nat.toList_repr, sign, if_pos (Int.negSucc_lt_zero m), Int.natAbs_negSucc]
    rfl

/-- An integer as written: an optional minus sign and digits. -/
theorem integerAt?_digits (minus : Bool) {digits : List Char} (hne : digits ≠ [])
    (hdigits : ∀ c ∈ digits, Text.isDigit c = true) (hrest : ∀ c ∈ rest.head?, Text.isDigit c = false) :
    integerAt? ((if minus then ['-'] else []) ++ digits ++ rest) =
      some ⟨.integer (if minus then -(Text.readDigits digits : Int) else Text.readDigits digits),
        ((if minus then ['-'] else []) ++ digits).length⟩ := by
  have htake : (digits ++ rest).takeWhile Text.isDigit = digits := takeWhile_append_of_head hdigits hrest
  cases minus with
  | true => simp [integerAt?, htake, hne, Nat.add_comm]
  | false =>
    obtain ⟨d, ds, rfl⟩ := List.exists_cons_of_ne_nil hne
    have hminus : d ≠ '-' := by
      rintro rfl
      cases hdigits _ List.mem_cons_self
    rw [List.cons_append] at htake
    simp [integerAt?_unsigned hminus, htake]

theorem lexeme?_digits (minus : Bool) {digits : List Char} (hne : digits ≠ [])
    (hdigits : ∀ c ∈ digits, Text.isDigit c = true) (hrest : ∀ c ∈ rest.head?, Text.isDigit c = false)
    (previous : Option Char) : lexeme? previous ((if minus then ['-'] else []) ++ digits ++ rest) =
      some ⟨.integer (if minus then -(Text.readDigits digits : Int) else Text.readDigits digits),
        ((if minus then ['-'] else []) ++ digits).length⟩ := by
  have hinteger := integerAt?_digits minus hne hdigits hrest
  obtain ⟨d, ds, rfl⟩ := List.exists_cons_of_ne_nil hne
  have hd : Text.isDigit d = true := hdigits d List.mem_cons_self
  cases minus with
  | true =>
    have harrow : ('>' == d) = false := by
      rw [beq_eq_false_iff_ne]
      rintro rfl
      cases hd
    have hfirst : markAt? firstMarks ('-' :: (d :: ds ++ rest)) = none := by
      simp [markAt?, firstMarks, Mark.chars, List.isPrefixOf, harrow]
    have hlexeme := lexeme?_of_noMark hfirst (by rfl) (by decide) previous
    rw [show integerAt? ('-' :: (d :: ds ++ rest)) = _ from hinteger] at hlexeme
    exact hlexeme
  | false =>
    have hmarks := markAt?_of_class (P := Text.isDigit) (by decide) hd
    have hcolon : d ≠ ':' := by
      rintro rfl
      cases hd
    have hlexeme := lexeme?_of_noMark (hmarks _ (ds ++ rest)) (hmarks _ (ds ++ rest)) hcolon previous
    rw [show integerAt? (d :: (ds ++ rest)) = _ from hinteger] at hlexeme
    exact hlexeme

theorem lexeme?_integer (n : Int) (previous : Option Char) (hrest : Follows (.integer n) rest) :
    lexeme? previous ((toString n).toList ++ rest) = some ⟨.integer n, (toString n).toList.length⟩ := by
  have hlexeme := lexeme?_digits (decide (n < 0)) (Nat.toDigits_ne_nil : Nat.toDigits 10 n.natAbs ≠ [])
    (fun c hc => isDigit_of_ascii (isDigit_of_mem_toDigits hc)) (fun c hc => (hrest.1 rfl c hc).2) previous
  have hvalue : (if n < 0 then -(n.natAbs : Int) else n.natAbs) = n := by omega
  simp only [decide_eq_true_eq, readDigits_toDigits, hvalue] at hlexeme
  rw [toList_int]
  exact hlexeme

theorem length_digits {n : Int} (hn : n.natAbs < 10 ^ Text.digitLimit) (rest : List Char) :
    digitOverflow? ⟨.integer n, (toString n).toList.length⟩ ((toString n).toList ++ rest) = none := by
  have hlength : (Nat.toDigits 10 n.natAbs).length ≤ Text.digitLimit :=
    (Nat.length_toDigits_le_iff (by decide) (by decide)).2 hn
  have hsign : (sign n).countP Text.isDigit = 0 := by
    unfold sign
    split
    · decide
    · rfl
  have hcount : ((toString n).toList).countP Text.isDigit ≤ Text.digitLimit := by
    rw [toList_int, List.countP_append, hsign]
    have := List.countP_le_length (p := Text.isDigit) (l := Nat.toDigits 10 n.natAbs)
    omega
  unfold digitOverflow?
  simp only [List.take_left']
  rw [if_neg (by omega)]

/-! ## Strings -/

theorem escapeChar_of_isPrintable (hc : Text.isPrintable c = true) :
    Text.escapeChar quote c = if c == '\\' || c == quote then ['\\', c] else [c] := by
  have hcontrol : c ≠ '\n' ∧ c ≠ '\r' ∧ c ≠ '\t' := by
    refine ⟨?_, ?_, ?_⟩ <;> rintro rfl <;> cases hc
  unfold Text.escapeChar
  simp [hcontrol, hc]

/-- Between quotes, a plain text is read up to the closing quote, and as it is. -/
theorem stringContent?_escaped (hquote : isQuote quote = true) (hcs : ∀ c ∈ cs, Text.isPrintable c = true)
    (rest : List Char) : stringContent? quote (cs.flatMap (Text.escapeChar quote) ++ quote :: rest) =
      some (cs.flatMap (Text.escapeChar quote)) ∧ unescape (cs.flatMap (Text.escapeChar quote)) = cs := by
  have hslash : '\\' ≠ quote := by
    rintro rfl
    cases hquote
  induction cs with
  | nil => exact ⟨by cases rest <;> simp [stringContent?], rfl⟩
  | cons c cs ih =>
    have hc := hcs c List.mem_cons_self
    have hline : c ≠ '\n' := by
      rintro rfl
      cases hc
    obtain ⟨hcontent, hplain⟩ := ih fun d hd => hcs d (List.mem_cons_of_mem _ hd)
    rw [List.flatMap_cons, escapeChar_of_isPrintable hc]
    generalize cs.flatMap (Text.escapeChar quote) = escaped at hcontent hplain ⊢
    split
    · exact ⟨by simp [stringContent?, hslash, hline, hcontent], by simp [unescape, hline, hplain]⟩
    · rename_i hself
      obtain ⟨hbackslash, hother⟩ : c ≠ '\\' ∧ c ≠ quote := by simpa using hself
      cases escaped with
      | nil =>
        cases hplain
        exact ⟨by cases rest <;> simp [stringContent?, hbackslash, hother], rfl⟩
      | cons d ds =>
        refine ⟨?_, by simp [unescape, hbackslash, hplain]⟩
        rw [List.singleton_append, List.cons_append, List.cons_append, stringContent?, ← List.cons_append, hcontent]
        simp [hbackslash, hother]

theorem quoteFor_cases (content : List Char) :
    Text.quoteFor content = Text.apostrophe ∨ Text.quoteFor content = Text.doubleQuote := by
  unfold Text.quoteFor
  split
  · exact .inr rfl
  · exact .inl rfl

/-- A text between quotes. -/
theorem lexeme?_quoted (hquote : isQuote quote = true) {content : List Char}
    (hcontent : stringContent? quote (content ++ quote :: rest) = some content) (previous : Option Char) :
    lexeme? previous (quote :: (content ++ [quote]) ++ rest) =
      some ⟨.string (String.ofList (unescape content)), (quote :: (content ++ [quote])).length⟩ := by
  have hne : ∀ d, isQuote d = false → quote ≠ d := by
    rintro d hd rfl
    rw [hquote] at hd
    cases hd
  have hmarks := markAt?_of_class (P := isQuote) (by decide) hquote
  have hdigit : Text.isDigit quote = false := by
    rcases Bool.or_eq_true_iff.1 hquote with h | h <;> rw [beq_iff_eq.1 h] <;> rfl
  have hstring : stringAt? (quote :: (content ++ quote :: rest)) =
      some ⟨.string (String.ofList (unescape content)), 2 + content.length⟩ := by
    rw [stringAt?, if_pos hquote, hcontent, Option.map_some]
  have hlength : (quote :: (content ++ [quote])).length = 2 + content.length := by
    rw [List.length_cons, List.length_append, List.length_singleton]
    omega
  rw [hlength, List.cons_append, List.append_assoc, List.singleton_append,
    lexeme?_of_noMark (hmarks _ _) (hmarks _ _) (hne ':' (by decide)),
    integerAt?_eq_none (hne '-' (by decide)) hdigit, hstring]
  rfl

theorem isQuote_quoteFor (content : List Char) : isQuote (Text.quoteFor content) = true := by
  rcases quoteFor_cases content with h | h <;> rw [h] <;> rfl

/-! ## Rows of pieces -/

theorem lexeme?_piece (hp : p.Valid) (hk : p.kind? = some k)
    (hprevious : ∀ s, p = .symbol s → endsWord previous = false) (hrest : Follows p rest) :
    lexeme? previous (p.chars ++ rest) = some ⟨k, p.chars.length⟩ := by
  cases p <;> cases hk
  case mark m => exact lexeme?_mark hrest
  case word s => exact lexeme?_word hp previous hrest
  case integer n => exact lexeme?_integer n previous hrest
  case string s =>
    have hquote := isQuote_quoteFor s.toList
    obtain ⟨hcontent, hplain⟩ := stringContent?_escaped hquote (List.all_eq_true.1 hp) rest
    have hlexeme := lexeme?_quoted hquote hcontent previous
    rwa [hplain, String.ofList_toList] at hlexeme
  case symbol s => exact lexeme?_symbol hp (hprevious s rfl) hrest

theorem digitOverflow?_piece (hp : p.Valid) (hk : p.kind? = some k) (rest : List Char) :
    digitOverflow? ⟨k, p.chars.length⟩ (p.chars ++ rest) = none := by
  cases p <;> cases hk
  case integer n => exact length_digits hp rest
  case word s =>
    unfold Piece.wordKind
    cases Keyword.ofText? s <;> rfl
  all_goals rfl

/-- What a piece begins with. -/
theorem exists_head (hp : p.Valid) : ∃ c cs, p.chars = c :: cs ∧ (p ≠ .blank → Text.isSpace c = false) ∧
      (p ≠ .mark .star → p ≠ .mark .starStar → c ≠ '*') ∧
      (p.isGap = true → Text.isWordPart c = false ∧ Text.isDigit c = false) := by
  have hword : ∀ s, Text.isWord s = true → ∃ c cs, s.toList = c :: cs ∧ Text.isSpace c = false ∧ c ≠ '*' := by
    intro s hs
    obtain ⟨c, cs, hcs, hc, -⟩ := Text.isWord_iff.1 hs
    have hrange := Text.toNat_of_isWordStart hc
    refine ⟨c, cs, hcs, ?_, ?_⟩
    · simp [Text.isSpace]
      omega
    · rintro rfl
      cases hc
  cases p with
  | blank => exact ⟨' ', [], rfl, fun h => absurd rfl h, fun _ _ => by decide, fun _ => by decide⟩
  | mark m =>
    cases m <;> refine ⟨_, _, rfl, fun _ => by decide, fun hstar hdouble => ?_, fun _ => by decide⟩
    case star => exact absurd rfl hstar
    case starStar => exact absurd rfl hdouble
    all_goals decide
  | word s =>
    obtain ⟨c, cs, hcs, hspace, hstar⟩ := hword s hp
    exact ⟨c, cs, hcs, fun _ => hspace, fun _ _ => hstar, fun h => nomatch h⟩
  | integer n =>
    obtain ⟨d, ds, hds⟩ := List.exists_cons_of_ne_nil (Nat.toDigits_ne_nil : Nat.toDigits 10 n.natAbs ≠ [])
    have hd : d.isDigit = true := isDigit_of_mem_toDigits (by rw [hds]; exact List.mem_cons_self)
    have hrange : 48 ≤ d.toNat ∧ d.toNat ≤ 57 := Char.isDigit_iff_toNat.1 hd
    have hchars : (Piece.integer n).chars = sign n ++ d :: ds := by rw [Piece.chars, toList_int, hds]
    rw [hchars]
    unfold sign
    split
    · exact ⟨'-', d :: ds, rfl, fun _ => by decide, fun _ _ => by decide, fun h => nomatch h⟩
    · refine ⟨d, ds, rfl, fun _ => ?_, fun _ _ => ?_, fun h => nomatch h⟩
      · simp [Text.isSpace]
        omega
      · rintro rfl
        cases hd
  | string s =>
    refine ⟨Text.quoteFor s.toList, _, rfl, fun _ => ?_, fun _ _ => ?_, fun h => nomatch h⟩
    · rcases quoteFor_cases s.toList with h | h <;> rw [h] <;> decide
    · rcases quoteFor_cases s.toList with h | h <;> rw [h] <;> decide
  | symbol s => exact ⟨':', s.toList, rfl, fun _ => by decide, fun _ _ => by decide, fun h => nomatch h⟩

theorem scan_pending (source : String) (cs rest : List Char) (previous : Option Char) (here : Position) :
    scan source cs.length previous here (cs ++ rest) =
      scan source 0 (cs.getLast?.or previous) (cs.foldl Position.after here) rest := by
  induction cs generalizing previous here with
  | nil => rfl
  | cons c cs ih =>
    rw [List.length_cons, List.cons_append, scan, ih, List.getLast?_cons, List.foldl_cons]
    cases cs.getLast? <;> rfl

theorem follows_of_fits {q : Piece} (h : p.Fits q) (hq : q.Valid) (rest : List Char) : Follows p (q.chars ++ rest) := by
  obtain ⟨c, cs, hcs, -, hstar, hgap⟩ := exists_head hq
  rw [hcs]
  refine ⟨fun hwordy d hd => ?_, fun hp heq => ?_, fun hp d hd => ?_⟩
  · cases hd
    exact hgap (h.1 hwordy)
  · exact hstar (h.2.1 hp).1 (h.2.1 hp).2 (Option.some.inj heq)
  · rw [h.2.2 hp] at hcs
    cases hcs
    cases hd
    rfl

theorem follows_nil (p : Piece) : Follows p [] := by
  refine ⟨?_, ?_, ?_⟩ <;> simp

/-- What does not end in a word may stand before a symbol. -/
theorem endsWord_getLast? (hp : p.isWordy = false) (previous : Option Char) :
    endsWord (p.chars.getLast?.or previous) = false := by
  cases p with
  | blank => rfl
  | mark m => cases m <;> rfl
  | string s =>
    have hlast : (Text.quotedChars s.toList).getLast? = some (Text.quoteFor s.toList) := List.getLast?_concat
    rw [Piece.chars, hlast]
    rcases quoteFor_cases s.toList with h | h <;> rw [h] <;> rfl
  | _ => cases hp

/-- The characters of a token are read as that token, and the rest is read after them. -/
theorem scan_token (source : String) {kind : TokenKind} {here : Position} (hspace : Text.isSpace c = false)
    (hlexeme : lexeme? previous (c :: cs ++ rest) = some ⟨kind, (c :: cs).length⟩)
    (hshort : digitOverflow? ⟨kind, (c :: cs).length⟩ (c :: cs ++ rest) = none) :
    scan source 0 previous here (c :: cs ++ rest) =
      (scan source 0 ((c :: cs).getLast?.or previous) ((c :: cs).foldl Position.after here) rest).map fun stream =>
        ⟨⟨kind, String.ofList (c :: cs), here.span (c :: cs).length⟩ :: stream.tokens, stream.diagnostics⟩ := by
  have htake : (c :: cs ++ rest).take (c :: cs).length = c :: cs := List.take_left' rfl
  have hlast : (c :: cs).getLast?.or previous = cs.getLast?.or (some c) := by
    rw [List.getLast?_cons]
    cases cs.getLast? <;> rfl
  rw [hlast, List.foldl_cons, ← scan_pending]
  rw [List.cons_append] at hlexeme hshort htake ⊢
  rw [scan, if_neg (by simp [hspace]), hlexeme]
  dsimp only
  rw [hshort, htake]
  dsimp only
  rw [List.length_cons, Nat.add_sub_cancel]
  cases scan source cs.length (some c) (here.after c) (cs ++ rest) <;> rfl

/-- The tokens of a row of pieces are those that the pieces stand for. -/
theorem scan_pieces (source : String) {ps : List Piece} (hvalid : ∀ p ∈ ps, p.Valid) (hfits : ps.IsChain Piece.Fits)
    (hprevious : ∀ s, ps.head? = some (.symbol s) → endsWord previous = false) (here : Position) :
    ∃ tokens, tokens.map face = Piece.faces ps ++ [.final] ∧
      scan source 0 previous here (Piece.text ps) = .ok ⟨tokens, []⟩ := by
  induction ps generalizing previous here with
  | nil => exact ⟨_, rfl, rfl⟩
  | cons p ps ih =>
    have hp := hvalid p List.mem_cons_self
    have hfollows : Follows p (Piece.text ps) := by
      cases ps with
      | nil => exact follows_nil p
      | cons q qs => exact follows_of_fits (List.isChain_cons_cons.1 hfits).1 (hvalid q (by simp)) _
    have hnext : ∀ s, ps.head? = some (.symbol s) → endsWord (p.chars.getLast?.or previous) = false := by
      intro s hs
      refine endsWord_getLast? ?_ previous
      cases ps with
      | nil => cases hs
      | cons q qs =>
        cases hs
        by_contra hwordy
        have hgap := (List.isChain_cons_cons.1 hfits).1.1 (by simpa using hwordy)
        cases hgap
    obtain ⟨tokens, hfaces, hscan⟩ := ih (fun q hq => hvalid q (List.mem_cons_of_mem _ hq)) hfits.tail hnext
      (p.chars.foldl Position.after here)
    rw [Piece.text, List.flatMap_cons, ← Piece.text]
    cases hk : p.kind? with
    | none =>
      cases p <;> cases hk
      exact ⟨tokens, hfaces, hscan⟩
    | some k =>
      have hlexeme := lexeme?_piece hp hk (fun s hs => hprevious s (by rw [hs]; rfl)) hfollows
      have hoverflow := digitOverflow?_piece hp hk (Piece.text ps)
      obtain ⟨c, cs, hcs, hspace, -, -⟩ := exists_head hp
      have hblank : p ≠ .blank := by rintro rfl; cases hk
      refine ⟨⟨k, String.ofList p.chars, here.span p.chars.length⟩ :: tokens, ?_, ?_⟩
      · rw [List.map_cons, hfaces, Piece.faces, Piece.faces, List.filterMap_cons, Piece.face?, hk]
        rfl
      · rw [hcs] at hlexeme hoverflow hscan ⊢
        rw [scan_token source (hspace hblank) hlexeme hoverflow, hscan]
        rfl

/-- The tokens of a text that is a row of fitting pieces. -/
theorem tokenize_pieces {source : String} {ps : List Piece} (htext : Piece.text ps = source.toList)
    (hvalid : ∀ p ∈ ps, p.Valid) (hfits : ps.IsChain Piece.Fits) :
    ∃ tokens, tokens.map face = Piece.faces ps ++ [.final] ∧ tokenize source = .ok ⟨tokens, []⟩ := by
  rw [tokenize, ← htext]
  exact scan_pieces source hvalid hfits (fun _ _ => rfl) {}

end Token

end Conformance
