import Conformance.Text.Alphanumeric
import Conformance.Text.Digit
import Conformance.Text.Identifier
import Conformance.Text.Quoted
import Conformance.Text.Space
import Conformance.Token

/-!
# From text to tokens

`lexeme?` recognises the one token that a text starts with.  `tokenize` goes through a text character
by character: white space is skipped, a character that starts no token becomes an `unexpected` token
and a diagnostic, and an `endOfText` token closes the list.
-/

namespace Conformance

/-- An integer is written with too many digits to be read. -/
structure TooManyDigits where
  digits : Nat
  deriving DecidableEq, Repr, Inhabited

namespace TooManyDigits

/-- What is reported. -/
def message (e : TooManyDigits) : String := Text.tooManyDigits s!": value has {e.digits} digits"

end TooManyDigits

/-- A position in a text. -/
structure Position where
  offset : Nat := 0
  line : Nat := 1
  column : Nat := 1
  deriving DecidableEq, Repr, Inhabited

namespace Position

def after (p : Position) (c : Char) : Position :=
  if c == '\n' then ⟨p.offset + 1, p.line + 1, 1⟩ else ⟨p.offset + 1, p.line, p.column + 1⟩

def span (p : Position) (length : Nat) : Span := ⟨p.offset, p.offset + length, p.line, p.column⟩

end Position

namespace Token

/-- A token's kind with the number of characters it takes. -/
structure Lexeme where
  kind : TokenKind
  length : Nat
  deriving DecidableEq, Repr, Inhabited

/-- The marks in the order they are tried; the lone colon and the comma come after symbols. -/
def firstMarks : List Mark :=
  [.arrow, .fatArrow, .starStar, .star, .question, .pipe, .ampersand, .caret, .dot, .lparen, .rparen,
    .lbracket, .rbracket, .lbrace, .rbrace, .colonColon]

/-- The first of the marks that the text starts with. -/
def markAt? (marks : List Mark) (cs : List Char) : Option Lexeme :=
  (marks.find? fun m => m.chars.isPrefixOf cs).map fun m => ⟨.mark m, m.chars.length⟩

/-- A quoted content with each escape replaced by the character after its backslash.  A backslash
before a line break is no escape. -/
def unescape : List Char → List Char
  | [] => []
  | [c] => [c]
  | c :: d :: cs =>
    if c == '\\' && d != '\n' then d :: unescape cs else c :: unescape (d :: cs)

/-- The raw content of a string literal, up to its closing quote. -/
def stringContent? (quote : Char) : List Char → Option (List Char)
  | [] => none
  | [c] => if c == quote then some [] else none
  | c :: d :: cs =>
    if c == quote then some []
    else if c == '\\' then
      if d == '\n' then none else (stringContent? quote cs).map fun r => c :: d :: r
    else (stringContent? quote (d :: cs)).map (c :: ·)

/-- Single and double quotes. -/
def isQuote (c : Char) : Bool := c == Text.apostrophe || c == Text.doubleQuote

/-- The leading name of a text. -/
def word (cs : List Char) : List Char := cs.takeWhile Text.isWordPart

/-- The symbol that follows a colon: a name, or any text up to the same quote. -/
def symbolAt? : List Char → Option Lexeme
  | [] => none
  | c :: cs =>
    if Text.isWordStart c then
      let name := word (c :: cs)
      some ⟨.symbol (String.ofList name), 1 + name.length⟩
    else if isQuote c then
      let content := cs.takeWhile (· != c)
      if content.length < cs.length then
        some ⟨.symbol (String.ofList (unescape content)), 3 + content.length⟩
      else none
    else none

/-- The integer that a text starts with: an optional minus sign and decimal digits of any script. -/
def integerAt? (cs : List Char) : Option Lexeme :=
  let (minus, rest) := match cs with
    | '-' :: rest => (true, rest)
    | rest => (false, rest)
  let digits := rest.takeWhile Text.isDigit
  if digits.isEmpty then none else
  let n : Int := Text.readDigits digits
  some ⟨.integer (if minus then -n else n), (if minus then 1 else 0) + digits.length⟩

/-- The string literal that a text starts with. -/
def stringAt? : List Char → Option Lexeme
  | [] => none
  | c :: cs =>
    if isQuote c then
      (stringContent? c cs).map fun content =>
        ⟨.string (String.ofList (unescape content)), 2 + content.length⟩
    else none

/-- The identifier or keyword that a text starts with. -/
def wordAt? : List Char → Option Lexeme
  | [] => none
  | c :: cs =>
    if Text.isWordStart c then
      let name := word (c :: cs)
      let kind := match Keyword.ofText? (String.ofList name) with
        | some k => TokenKind.keyword k
        | none => TokenKind.identifier
      some ⟨kind, name.length⟩
    else none

/-- Does the character before a colon make it the end of a keyword name? -/
def endsWord : Option Char → Bool
  | some c => Text.isAlphanumeric c || c == '_'
  | none => false

/-- The token that a text starts with, given the character before it. -/
def lexeme? (previous : Option Char) (cs : List Char) : Option Lexeme :=
  markAt? firstMarks cs
  <|> (match cs with
      | ':' :: rest => if endsWord previous then none else symbolAt? rest
      | _ => none)
  <|> markAt? [.colon, .comma] cs
  <|> integerAt? cs
  <|> stringAt? cs
  <|> wordAt? cs

def digitOverflow? (l : Lexeme) (cs : List Char) : Option TooManyDigits :=
  match l.kind with
  | .integer _ =>
    let digits := (cs.take l.length).countP Text.isDigit
    if Text.digitLimit < digits then some ⟨digits⟩ else none
  | _ => none

/-- What reading a text gives: its tokens, and a diagnostic for each unexpected character. -/
structure Stream where
  tokens : List Token
  diagnostics : List Diagnostic
  deriving DecidableEq, Repr, Inhabited

def unexpectedCharacter (source : String) (c : Char) (span : Span) : Diagnostic where
  kind := .malformedText
  message := s!"Unexpected character: '{c}'"
  signature := some source
  span := some span

/-- The tokens of the rest of a text.  `pending` characters still belong to the last token;
`previous` is the character before the rest. -/
def scan (source : String) :
    (pending : Nat) → (previous : Option Char) → Position → List Char → Except TooManyDigits Stream
  | _, _, here, [] => .ok ⟨[⟨.endOfText, "", here.span 0⟩], []⟩
  | pending + 1, _, here, c :: cs => scan source pending (some c) (here.after c) cs
  | 0, previous, here, c :: cs =>
    if Text.isSpace c then scan source 0 (some c) (here.after c) cs else
    match lexeme? previous (c :: cs) with
    | some l =>
      match digitOverflow? l (c :: cs) with
      | some e => .error e
      | none => do
        let rest ← scan source (l.length - 1) (some c) (here.after c) cs
        let lexeme := String.ofList ((c :: cs).take l.length)
        return { rest with tokens := ⟨l.kind, lexeme, here.span l.length⟩ :: rest.tokens }
    | none => do
      let rest ← scan source 0 (some c) (here.after c) cs
      let span := here.span 1
      return ⟨⟨.unexpected, String.singleton c, span⟩ :: rest.tokens,
        unexpectedCharacter source c span :: rest.diagnostics⟩

def tokenize (source : String) : Except TooManyDigits Stream :=
  scan source 0 none {} source.toList

end Token

end Conformance
