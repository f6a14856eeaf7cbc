import Conformance.Diagnostic

/-!
# Tokens

The words and marks of a signature text.  A token's kind says what it means; its lexeme and span say
how and where it was written.
-/

namespace Conformance

/-- The base types, each named by a keyword. -/
inductive Base where
  | top
  | bot
  | void
  | bool
  | boolish
  | nil
  | selfType
  | instanceType
  | classType
  deriving DecidableEq, Repr, Inhabited

namespace Base

/-- The keyword that names the base type. -/
def text : Base → String
  | top => "top"
  | bot => "bot"
  | void => "void"
  | bool => "bool"
  | boolish => "boolish"
  | nil => "nil"
  | selfType => "self"
  | instanceType => "instance"
  | classType => "class"

def all : List Base := [top, bot, void, bool, boolish, nil, selfType, instanceType, classType]

end Base

/-- A keyword, by its meaning. -/
inductive Keyword where
  | untyped
  | base (b : Base)
  | truth (b : Bool)
  | singleton
  deriving DecidableEq, Repr, Inhabited

namespace Keyword

def text : Keyword → String
  | untyped => "untyped"
  | base b => b.text
  | truth b => if b then "true" else "false"
  | singleton => "singleton"

def all : List Keyword :=
  untyped :: Base.all.map base ++ [truth true, truth false, singleton]

def ofText? (s : String) : Option Keyword := all.find? (·.text == s)

end Keyword

/-- Operators and punctuation. -/
inductive Mark where
  | arrow
  | fatArrow
  | starStar
  | star
  | question
  | pipe
  | ampersand
  | caret
  | dot
  | lparen
  | rparen
  | lbracket
  | rbracket
  | lbrace
  | rbrace
  | colonColon
  | colon
  | comma
  deriving DecidableEq, Repr, Inhabited

namespace Mark

def chars : Mark → List Char
  | arrow => ['-', '>']
  | fatArrow => ['=', '>']
  | starStar => ['*', '*']
  | star => ['*']
  | question => ['?']
  | pipe => ['|']
  | ampersand => ['&']
  | caret => ['^']
  | dot => ['.']
  | lparen => ['(']
  | rparen => [')']
  | lbracket => ['[']
  | rbracket => [']']
  | lbrace => ['\x7b']
  | rbrace => ['\x7d']
  | colonColon => [':', ':']
  | colon => [':']
  | comma => [',']

def name : Mark → String
  | arrow => "ARROW"
  | fatArrow => "FATARROW"
  | starStar => "STARSTAR"
  | star => "STAR"
  | question => "QUESTION"
  | pipe => "PIPE"
  | ampersand => "AMPERSAND"
  | caret => "CARET"
  | dot => "DOT"
  | lparen => "LPAREN"
  | rparen => "RPAREN"
  | lbracket => "LBRACKET"
  | rbracket => "RBRACKET"
  | lbrace => "LBRACE"
  | rbrace => "RBRACE"
  | colonColon => "COLONCOLON"
  | colon => "COLON"
  | comma => "COMMA"

end Mark

/-- What a token means. -/
inductive TokenKind where
  | mark (m : Mark)
  | keyword (k : Keyword)
  | identifier
  | integer (n : Int)
  | string (s : String)
  | symbol (s : String)
  | endOfText
  | unexpected
  deriving DecidableEq, Repr, Inhabited

namespace TokenKind

def name : TokenKind → String
  | mark m => m.name
  | keyword k => k.text.toUpper
  | identifier => "IDENTIFIER"
  | integer _ => "INTEGER"
  | string _ => "STRING"
  | symbol _ => "SYMBOL"
  | endOfText => "EOF"
  | unexpected => "ERROR"

end TokenKind

/-- A token: its meaning, the characters it was written with, and where. -/
structure Token where
  kind : TokenKind
  lexeme : String
  span : Span
  deriving DecidableEq, Repr, Inhabited

namespace Token

/-- Identifiers and keywords, which may both name parameters and record fields. -/
def isWord (t : Token) : Bool :=
  match t.kind with
  | .identifier | .keyword _ => true
  | _ => false

end Token

end Conformance
