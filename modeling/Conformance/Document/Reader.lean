import Conformance.Document
import Conformance.Double.Reader
import Conformance.Token.Lexer

/-!
# Reading documents

A reader of document texts.  What breaks the format is reported with its place; the offset counts
characters from the start of the text.
-/

namespace Conformance

namespace Document

/-- What is wrong with a text. -/
inductive Problem where
  | value
  | propertyName
  | colon
  | comma
  | unterminated
  | controlCharacter
  | escape
  | unicodeEscape
  | extraData
  | byteOrderMark
  deriving DecidableEq, Repr, Inhabited

namespace Problem

def text : Problem → String
  | value => "Expecting value"
  | propertyName => "Expecting property name enclosed in double quotes"
  | colon => "Expecting ':' delimiter"
  | comma => "Expecting ',' delimiter"
  | unterminated => "Unterminated string starting at"
  | controlCharacter => "Invalid control character at"
  | escape => "Invalid \\escape"
  | unicodeEscape => "Invalid \\uXXXX escape"
  | extraData => "Extra data"
  | byteOrderMark => "Unexpected UTF-8 BOM (decode using utf-8-sig)"

end Problem

/-- Why a text is no document. -/
inductive ReadError where
  | malformed (problem : Problem) (offset : Nat)
  | tooManyDigits (e : TooManyDigits)
  /-- The nesting is deeper than can be read. -/
  | tooDeep
  deriving DecidableEq, Repr, Inhabited

namespace ReadError

/-- The error in words, with its line and column in the text. -/
def message (text : String) : ReadError → String
  | malformed problem offset =>
    let before := text.toList.take offset
    let line := (before.filter (· == '\n')).length + 1
    let column := (before.reverse.takeWhile (· != '\n')).length + 1
    s!"{problem.text}: line {line} column {column} (char {offset})"
  | tooManyDigits e => e.message
  | tooDeep => ""

end ReadError

/-- What is left of a text, and the offset where it starts. -/
structure Rest where
  chars : List Char
  offset : Nat := 0
  deriving DecidableEq, Repr, Inhabited

namespace Rest

/-- The rest after some characters. -/
def drop (r : Rest) (n : Nat) : Rest := ⟨r.chars.drop n, r.offset + n⟩

def startsWith (r : Rest) (c : Char) : Bool := r.chars.head? == some c

def skipBlanks (r : Rest) : Rest :=
  r.drop (r.chars.takeWhile fun c => c == ' ' || c == '\t' || c == '\n' || c == '\r').length

/-- A complaint about this place. -/
def error {α : Type} (r : Rest) (p : Problem) : Except ReadError α := .error (.malformed p r.offset)

end Rest

abbrev Read (α : Type) := Rest → Except ReadError (α × Rest)

/-! ## Strings -/

/-- The value of a hexadecimal digit. -/
def hexValue? (c : Char) : Option Nat :=
  if c.isDigit then some (c.toNat - '0'.toNat)
  else if 'a' ≤ c && c ≤ 'f' then some (c.toNat - 'a'.toNat + 10)
  else if 'A' ≤ c && c ≤ 'F' then some (c.toNat - 'A'.toNat + 10)
  else none

/-- The value of exactly four hexadecimal digits with something after them. -/
def unit? (cs : List Char) : Option Nat :=
  match cs with
  | a :: b :: c :: d :: _ :: _ => do
    return (((← hexValue? a) * 16 + (← hexValue? b)) * 16 + (← hexValue? c)) * 16 + (← hexValue? d)
  | _ => none

def escaped? : Char → Option Char
  | '"' => some '"'
  | '\\' => some '\\'
  | '/' => some '/'
  | 'b' => some '\x08'
  | 'f' => some '\x0c'
  | 'n' => some '\n'
  | 'r' => some '\r'
  | 't' => some '\t'
  | _ => none

/-- The character of a sixteen-bit escape after its `\u`: two units in a row may make one character. -/
def unicodeEscape : Read Char := fun r =>
  match unit? r.chars with
  | none => .error (.malformed .unicodeEscape (r.offset - 1))
  | some n =>
    let single := (Char.ofNat n, r.drop 4)
    let after := (r.drop 4).chars
    if 0xD800 ≤ n && n ≤ 0xDBFF && after.take 2 == ['\\', 'u'] && 6 < after.length then
      match unit? (after.drop 2) with
      | none => .error (.malformed .unicodeEscape (r.offset + 5))
      | some m =>
        if 0xDC00 ≤ m && m ≤ 0xDFFF then
          .ok (Char.ofNat (0x10000 + (n - 0xD800) * 0x400 + (m - 0xDC00)), r.drop 10)
        else .ok single
    else .ok single

/-- The characters of a string that starts at `start`, up to its closing quote. -/
def stringChars (start : Rest) : (fuel : Nat) → Read (List Char)
  | 0 => fun _ => start.error .unterminated
  | fuel + 1 => fun r =>
    match r.chars with
    | [] => start.error .unterminated
    | '"' :: _ => .ok ([], r.drop 1)
    | ['\\'] => start.error .unterminated
    | '\\' :: 'u' :: _ => do
      let (c, r) ← unicodeEscape (r.drop 2)
      let (cs, r) ← stringChars start fuel r
      return (c :: cs, r)
    | '\\' :: c :: _ =>
      match escaped? c with
      | none => r.error .escape
      | some c => do
        let (cs, r) ← stringChars start fuel (r.drop 2)
        return (c :: cs, r)
    | c :: _ =>
      if c < ' ' then r.error .controlCharacter else do
      let (cs, r) ← stringChars start fuel (r.drop 1)
      return (c :: cs, r)

/-- A string, with its opening quote next. -/
def string : Read String := fun r => do
  let (cs, rest) ← stringChars r (r.chars.length + 1) (r.drop 1)
  return (String.ofList cs, rest)

/-! ## Numbers -/

/-- The integer part of a number: a sign, and digits without a leading zero. -/
def wholePart (cs : List Char) : Option (List Char) :=
  let sign := cs.takeWhile (· == '-') |>.take 1
  match cs.drop sign.length with
  | '0' :: _ => some (sign ++ ['0'])
  | rest =>
    let digits := rest.takeWhile Char.isDigit
    if digits.isEmpty then none else some (sign ++ digits)

/-- The fraction part of a number: a point with digits after it. -/
def fractionPart : List Char → List Char
  | '.' :: rest =>
    let digits := rest.takeWhile Char.isDigit
    if digits.isEmpty then [] else '.' :: digits
  | _ => []

def exponentPart : List Char → List Char
  | e :: rest =>
    if e == 'e' || e == 'E' then
      let sign := (rest.take 1).filter fun c => c == '+' || c == '-'
      let digits := (rest.drop sign.length).takeWhile Char.isDigit
      if digits.isEmpty then [] else e :: sign ++ digits
    else []
  | [] => []

def number : Read Document := fun r =>
  match wholePart r.chars with
  | none => r.error .value
  | some whole =>
    let after := r.drop whole.length
    let fraction := fractionPart after.chars
    let exponent := exponentPart (after.drop fraction.length).chars
    let rest := (after.drop fraction.length).drop exponent.length
    if fraction.isEmpty && exponent.isEmpty then
      let digits := whole.filter Char.isDigit
      if Text.digitLimit < digits.length then .error (.tooManyDigits ⟨digits.length⟩) else
      let n : Int := Double.digitsValue digits
      .ok (.int (if whole.head? == some '-' then -n else n), rest)
    else
      .ok (.float ((Double.read? (String.ofList (whole ++ fraction ++ exponent))).getD .nan), rest)

/-! ## Documents -/

def words : List (String × Document) :=
  [("null", .null), ("true", .bool true), ("false", .bool false), ("NaN", .float .nan),
    ("Infinity", .float (.infinite false)), ("-Infinity", .float (.infinite true))]

/-- A word or a number. -/
def scalar : Read Document := fun r =>
  match words.find? fun w => r.chars.take w.1.length == w.1.toList with
  | some (word, d) => .ok (d, r.drop word.length)
  | none => number r

/-- Items with commas between them up to the closing bracket.  `pad` skips blanks. -/
def items (item : Read Document) : (fuel : Nat) → Read (List Document)
  | 0 => fun _ => .error .tooDeep
  | fuel + 1 => fun r => do
    let (d, r) ← item r
    let r := r.skipBlanks
    if r.startsWith ']' then return ([d], r.drop 1)
    else if r.startsWith ',' then
      let (ds, r) ← items item fuel (r.drop 1).skipBlanks
      return (d :: ds, r)
    else r.error .comma

/-- Fields with commas between them up to the closing brace. -/
def fields (item : Read Document) : (fuel : Nat) → Read (List (String × Document))
  | 0 => fun _ => .error .tooDeep
  | fuel + 1 => fun r => do
    if !r.startsWith '"' then r.error .propertyName else
    let (key, r) ← string r
    let r := r.skipBlanks
    if !r.startsWith ':' then r.error .colon else
    let (d, r) ← item (r.drop 1).skipBlanks
    let r := r.skipBlanks
    if r.startsWith '\x7d' then return ([(key, d)], r.drop 1)
    else if r.startsWith ',' then
      let (fs, r) ← fields item fuel (r.drop 1).skipBlanks
      return ((key, d) :: fs, r)
    else r.error .comma

/-- Fields with each key once: the last value of a key, at its first place. -/
def distinct (fs : List (String × Document)) : List (String × Document) :=
  fs.foldl (fun acc f =>
    if acc.any (·.1 == f.1) then acc.map fun g => if g.1 == f.1 then f else g else acc ++ [f]) []

def document : (fuel : Nat) → Read Document
  | 0 => fun _ => .error .tooDeep
  | fuel + 1 => fun r =>
    let inside := (r.drop 1).skipBlanks
    let most := r.chars.length + 1
    match r.chars with
    | '"' :: _ => do
      let (s, r) ← string r
      return (.str s, r)
    | '\x7b' :: _ =>
      if inside.startsWith '\x7d' then .ok (.object [], inside.drop 1) else do
      let (fs, r) ← fields (document fuel) most inside
      return (.object (distinct fs), r)
    | '[' :: _ =>
      if inside.startsWith ']' then .ok (.list [], inside.drop 1) else do
      let (ds, r) ← items (document fuel) most inside
      return (.list ds, r)
    | _ => scalar r

/-- Reads a document that is nested at most so many levels deep. -/
def read (depth : Nat) (text : String) : Except ReadError Document := do
  let start : Rest := ⟨text.toList, 0⟩
  if start.startsWith '\ufeff' then start.error .byteOrderMark else
  let (d, r) ← document (depth + 1) start.skipBlanks
  let r := r.skipBlanks
  if r.chars.isEmpty then return d else r.error .extraData

end Document

end Conformance
