import Conformance.Double.Shortest
import Conformance.Text.Quoted
import Conformance.Value

/-!
# Documents

The tree of a report file, and its written form: objects and lists over several lines with an indent
of two, and every character outside printable ASCII escaped.
-/

namespace Conformance

/-- A document. -/
inductive Document where
  | null
  | bool (b : Bool)
  | int (n : Int)
  | float (x : Double)
  | str (s : String)
  | list (items : List Document)
  | object (fields : List (String × Document))
  deriving Inhabited

namespace Document

/-! ## Documents as values -/

mutual

def toValue : Document → Value
  | null => .null
  | bool b => .bool b
  | int n => .int n
  | float x => .float x
  | str s => .str s
  | list items => .sequence .list (toValues items)
  | object fields => .mapping .dict (toEntries fields)

def toValues : List Document → List Value
  | [] => []
  | d :: ds => d.toValue :: toValues ds

def toEntries : List (String × Document) → List (Value × Value)
  | [] => []
  | (k, d) :: fs => (.str k, d.toValue) :: toEntries fs

end

mutual

/-- The document of a value.  What is none of a document's values becomes nothing. -/
def ofValue : Value → Document
  | .bool b => bool b
  | .int n => int n
  | .float x => float x
  | .str s => str s
  | .sequence .list items => list (ofValues items)
  | .mapping .dict entries => object (ofEntries entries)
  | _ => null

def ofValues : List Value → List Document
  | [] => []
  | v :: vs => ofValue v :: ofValues vs

/-- The fields of entries.  Only a text can be the name of one. -/
def ofEntries : List (Value × Value) → List (String × Document)
  | [] => []
  | (.str k, v) :: rest => (k, ofValue v) :: ofEntries rest
  | _ :: rest => ofEntries rest

end

/-! ## Writing -/

def escapeUnit (n : Nat) : List Char := ['\\', 'u'] ++ Text.hexDigits 4 n

/-- A character inside quotes. -/
def escapeChar (c : Char) : List Char :=
  if c == '"' then ['\\', '"'] else if c == '\\' then ['\\', '\\']
  else if c == '\n' then ['\\', 'n'] else if c == '\r' then ['\\', 'r']
  else if c == '\t' then ['\\', 't'] else if c == '\x0c' then ['\\', 'f']
  else if c == '\x08' then ['\\', 'b']
  else if ' ' ≤ c && c ≤ '~' then [c]
  else if c.toNat < 0x10000 then escapeUnit c.toNat
  else
    let n := c.toNat - 0x10000
    escapeUnit (0xD800 + n / 0x400) ++ escapeUnit (0xDC00 + n % 0x400)

def quoted (s : String) : String := "\"" ++ String.ofList (s.toList.flatMap escapeChar) ++ "\""

/-- A line break and an indent. -/
def newline (depth : Nat) : String := "\n" ++ String.ofList (List.replicate (2 * depth) ' ')

def bracketed (opening closing : String) (depth : Nat) (parts : List String) : String :=
  if parts.isEmpty then opening ++ closing else
  opening ++ newline (depth + 1) ++ ("," ++ newline (depth + 1)).intercalate parts
    ++ newline depth ++ closing

mutual

def renderAt (depth : Nat) : Document → String
  | null => "null"
  | bool b => if b then "true" else "false"
  | int n => toString n
  | float .nan => "NaN"
  | float (.infinite negative) => if negative then "-Infinity" else "Infinity"
  | float x => x.render
  | str s => quoted s
  | list items => bracketed "[" "]" depth (renderItems (depth + 1) items)
  | object fields => bracketed "\x7b" "\x7d" depth (renderFields (depth + 1) fields)

/-- The written forms of items. -/
def renderItems (depth : Nat) : List Document → List String
  | [] => []
  | d :: ds => d.renderAt depth :: renderItems depth ds

/-- The written forms of fields. -/
def renderFields (depth : Nat) : List (String × Document) → List String
  | [] => []
  | (k, d) :: fs => (quoted k ++ ": " ++ d.renderAt depth) :: renderFields depth fs

end

/-- The written form of a document. -/
def render (d : Document) : String := d.renderAt 0

end Document

end Conformance
