import Conformance.Text.Printable

/-!
# Quoted text

The written form of a text or of a row of bytes.  Single quotes are used unless the content has a
single quote and no double quote.  The backslash, the quote in use, the three common controls and
every unprintable character are escaped.
-/

namespace Conformance.Text

def apostrophe : Char := '\x27'

def doubleQuote : Char := '\x22'

def quoteFor (content : List Char) : Char :=
  if content.contains apostrophe && !content.contains doubleQuote then doubleQuote else apostrophe

/-- One lower-case hexadecimal digit. -/
def hexDigit (n : Nat) : Char := if n < 10 then Char.ofNat (48 + n) else Char.ofNat (87 + n)

/-- The last `width` hexadecimal digits of a number. -/
def hexDigits : (width : Nat) → Nat → List Char
  | 0, _ => []
  | width + 1, n => hexDigits width (n / 16) ++ [hexDigit (n % 16)]

/-- An unprintable character by its code point, in the shortest of the three fixed widths. -/
def escapeCode (n : Nat) : List Char :=
  if n < 0x100 then ['\\', 'x'] ++ hexDigits 2 n
  else if n < 0x10000 then ['\\', 'u'] ++ hexDigits 4 n
  else ['\\', 'U'] ++ hexDigits 8 n

def escapeChar (quote c : Char) : List Char :=
  if c == '\\' || c == quote then ['\\', c]
  else if c == '\n' then ['\\', 'n']
  else if c == '\r' then ['\\', 'r']
  else if c == '\t' then ['\\', 't']
  else if isPrintable c then [c]
  else escapeCode c.toNat

def quotedChars (content : List Char) : List Char :=
  let quote := quoteFor content
  quote :: content.flatMap (escapeChar quote) ++ [quote]

/-- The written form of a text. -/
def quoted (s : String) : String := String.ofList (quotedChars s.toList)

/-- The written form of a row of bytes: printable ASCII stands for itself.  `escaped` is the quote that
is escaped, given the one that is used. -/
def quotedBytesWith (escaped : Char → Char) (bytes : List Nat) : String :=
  let content := bytes.map Char.ofNat
  let quote := quoteFor content
  let shown (c : Char) := if c.toNat < 128 then escapeChar (escaped quote) c else escapeCode c.toNat
  String.ofList ('b' :: quote :: content.flatMap shown ++ [quote])

/-- The written form of a row of bytes. -/
def quotedBytes (bytes : List Nat) : String := quotedBytesWith id bytes

/-- The written form of a row of bytes that can change: single quotes are always escaped. -/
def quotedByteArray (bytes : List Nat) : String := quotedBytesWith (fun _ => apostrophe) bytes

end Conformance.Text
