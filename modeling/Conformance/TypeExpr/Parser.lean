import Conformance.TypeExpr.Printer

/-!
# Reading type expressions and signatures

A recursive-descent reader of token lists.  Every piece of the grammar is a function of the reader for
nested type expressions, so the recursion is in one place: `typeExpr`, whose fuel is bounded by the
number of tokens because each nesting takes at least one.

An interface is looked up as soon as its name is read; the lookup is a parameter (`Scope.resolve`), and
the names looked up are kept in order, whether the reading succeeds or not.
-/

namespace Conformance

namespace Parser

/-- What is left to read, and the interfaces looked up so far, in order. -/
structure Cursor where
  tokens : List Token
  mentions : List String := []
  deriving DecidableEq, Repr, Inhabited

/-- Why reading stopped. -/
inductive Reason (ε : Type) where
  /-- The text breaks the grammar at a token. -/
  | malformed (message : String) (span : Span)
  /-- An interface could not be looked up. -/
  | lookup (error : ε)
  /-- The fuel or the tokens ran out. -/
  | exhausted
  deriving DecidableEq, Repr, Inhabited

/-- A reading that stopped, with the interfaces looked up before. -/
structure Halt (ε : Type) where
  reason : Reason ε
  mentions : List String
  deriving DecidableEq, Repr, Inhabited

/-- What names mean while a text is read: the type variables in scope, and the interfaces. -/
structure Scope (ε : Type) where
  typeParams : List String := []
  resolve : String → Except ε (List (Capability TypeExpr))

end Parser

/-- A reader of tokens. -/
abbrev Parser (ε α : Type) := StateT Parser.Cursor (Except (Parser.Halt ε)) α

namespace Parser

variable {ε α : Type}

/-! ## Single tokens -/

namespace Cursor

/-- The kind of the token `n` places ahead; past the end there is only the end. -/
def kind (c : Cursor) (n : Nat := 0) : TokenKind := (c.tokens[n]?.map (·.kind)).getD .endOfText

/-- Is the next token this mark? -/
def atMark (c : Cursor) (m : Mark) : Bool := c.kind == .mark m

/-- Is the token `n` places ahead a word with a colon after it? -/
def atKeyword (c : Cursor) (n : Nat) : Bool :=
  (c.tokens[n]?.map (·.isWord)).getD false && c.kind (n + 1) == .mark .colon

def atBlock (c : Cursor) : Bool :=
  c.atMark .lbrace || (c.atMark .question && c.kind 1 == .mark .lbrace)

/-- Everything after the next token; the end is never passed. -/
def next (c : Cursor) : Cursor :=
  if c.kind == .endOfText then c else { c with tokens := c.tokens.tail }

def token (c : Cursor) : Token := c.tokens.head?.getD ⟨.endOfText, "", default⟩

end Cursor

/-- Stops because the next token breaks the grammar. -/
def fail (message : String) : Parser ε α := fun c =>
  let found := if c.token.lexeme.isEmpty then "end of input" else c.token.lexeme
  .error ⟨.malformed s!"{message} (found '{found}')" c.token.span, c.mentions⟩

/-- Stops because nothing is left to go on with. -/
def exhausted : Parser ε α := fun c => .error ⟨.exhausted, c.mentions⟩

/-- Takes the next token, which must not be the end. -/
def advance : Parser ε Token := fun c =>
  if c.kind == .endOfText then exhausted c else .ok (c.token, c.next)

/-- Takes a mark if it is next. -/
def accept (m : Mark) : Parser ε Bool := fun c =>
  if c.atMark m then .ok (true, c.next) else .ok (false, c)

/-- Takes a mark that has to be next. -/
def expect (m : Mark) (message : String) : Parser ε Unit := do
  if !(← accept m) then fail message

/-- Takes an identifier that has to be next. -/
def expectIdentifier (message : String) : Parser ε String := do
  if (← get).kind == .identifier then return (← advance).lexeme else fail message

def separated (m : Mark) (item : Parser ε α) : (fuel : Nat) → Parser ε (List α)
  | 0 => exhausted
  | fuel + 1 => do
    let x ← item
    if ← accept m then return x :: (← separated m item fuel) else return [x]

/-- One or more items with a mark between them; there are no more items than tokens. -/
def separatedBy (m : Mark) (item : Parser ε α) : Parser ε (List α) := do
  separated m item ((← get).tokens.length + 1)

/-! ## Parameter lists -/

def param (nested : Parser ε TypeExpr) : Parser ε (Param TypeExpr) := do
  let type ← nested
  if (← get).token.isWord then return ⟨type, some (← advance).lexeme⟩ else return ⟨type, none⟩

/-- A keyword parameter: its name, a colon, and the parameter.  No name may be declared twice. -/
def keywordParam (nested : Parser ε TypeExpr) (acc : Params TypeExpr) :
    Parser ε (String × Param TypeExpr) := do
  let name := (← advance).lexeme
  expect .colon "Expected ':' after keyword name"
  let p ← param nested
  if acc.keywords.any (·.1 == name) then fail s!"Duplicate keyword '{name}'" else return (name, p)

def hasKeywords (acc : Params TypeExpr) : Bool := !acc.keywords.isEmpty

/-- Adds the next parameter to the groups read so far, if it may follow them. -/
def paramItem (nested : Parser ε TypeExpr) (acc : Params TypeExpr) : Parser ε (Params TypeExpr) := do
  if acc.restKeywords.isSome then fail "No parameter may follow '**'"
  else if ← accept .starStar then
    return { acc with restKeywords := some (← param nested) }
  else if ← accept .star then
    if acc.rest.isSome then fail "Only one '*' parameter is allowed"
    else if hasKeywords acc then fail "Positional parameter after keyword parameter"
    else return { acc with rest := some (← param nested) }
  else if (← get).atKeyword 0 then
    let p ← keywordParam nested acc
    return { acc with requiredKeywords := acc.requiredKeywords ++ [p] }
  else if (← get).atMark .question && (← get).atKeyword 1 then
    let _ ← advance
    let p ← keywordParam nested acc
    return { acc with optionalKeywords := acc.optionalKeywords ++ [p] }
  else if hasKeywords acc then fail "Positional parameter after keyword parameter"
  else if ← accept .question then
    if acc.rest.isSome || !acc.trailing.isEmpty then
      fail "Optional parameter after '*' or trailing parameter"
    else return { acc with optional := acc.optional ++ [← param nested] }
  else if acc.rest.isSome || !acc.optional.isEmpty then
    return { acc with trailing := acc.trailing ++ [← param nested] }
  else return { acc with required := acc.required ++ [← param nested] }

/-- Parameters with commas between them, after the groups read so far. -/
def paramItems (nested : Parser ε TypeExpr) (acc : Params TypeExpr) :
    (fuel : Nat) → Parser ε (Params TypeExpr)
  | 0 => exhausted
  | fuel + 1 => do
    let acc ← paramItem nested acc
    if ← accept .comma then paramItems nested acc fuel else return acc

/-- A parameter list in parentheses. -/
def params (nested : Parser ε TypeExpr) : Parser ε (Params TypeExpr) := do
  expect .lparen "Expected '('"
  let ps ← if (← get).atMark .rparen then pure {} else
    paramItems nested {} ((← get).tokens.length + 1)
  expect .rparen "Expected ')' after parameters"
  return ps

/-- A parameter list, or none. -/
def optionalParams (nested : Parser ε TypeExpr) : Parser ε (Params TypeExpr) := do
  if (← get).atMark .lparen then params nested else return {}

/-- A block type in braces.  A binding of the block's receiver is read and dropped. -/
def block (nested : Parser ε TypeExpr) : Parser ε (Block TypeExpr) := do
  let optional ← accept .question
  expect .lbrace "Expected '\x7b' to open block type"
  let ps ← optionalParams nested
  if ← accept .lbracket then
    if (← get).kind == .keyword (.base .selfType) then
      let _ ← advance
    else fail "Expected 'self' in block self-type binding"
    expect .colon "Expected ':' after 'self'"
    let _ ← nested
    expect .rbracket "Expected ']' after block self-type binding"
  expect .arrow "Expected '->' in block type"
  let result ← nested
  expect .rbrace "Expected '\x7d' to close block type"
  return ⟨ps, result, !optional⟩

def optionalBlock (nested : Parser ε TypeExpr) : Parser ε (Option (Block TypeExpr)) := do
  if (← get).atBlock then return some (← block nested) else return none

/-! ## Types -/

/-- A qualified name: its text without a leading `::`, whether it has one, and its last part. -/
structure QualifiedName where
  bare : String
  rooted : Bool
  last : String
  deriving DecidableEq, Repr, Inhabited

def QualifiedName.text (n : QualifiedName) : String := if n.rooted then "::" ++ n.bare else n.bare

def nameParts (name : QualifiedName) : (fuel : Nat) → Parser ε QualifiedName
  | 0 => exhausted
  | fuel + 1 => do
    let c ← get
    if (c.atMark .colonColon || c.atMark .dot) && c.kind 1 == .identifier then
      let separator := (← advance).lexeme
      let part := (← advance).lexeme
      nameParts { name with bare := name.bare ++ separator ++ part, last := part } fuel
    else return name

def qualifiedName : Parser ε QualifiedName := do
  let rooted ← accept .colonColon
  let first ← expectIdentifier "Expected type name"
  nameParts ⟨first, rooted, first⟩ ((← get).tokens.length + 1)

/-- Type arguments in brackets, or none. -/
def typeArgs (nested : Parser ε TypeExpr) : Parser ε (List TypeExpr) := do
  if ← accept .lbracket then
    let args ← separatedBy .comma nested
    expect .rbracket "Expected ']' after type arguments"
    return args
  else return []

/-- Looks an interface up. -/
def lookup (scope : Scope ε) (name : String) : Parser ε (List (Capability TypeExpr)) := fun c =>
  let mentions := c.mentions ++ [name]
  match scope.resolve name with
  | .ok methods => .ok (methods, { c with mentions })
  | .error e => .error ⟨.lookup e, mentions⟩

/-- A named type: a type variable in scope, an interface if its last part starts with an underscore,
and a class otherwise.  The type arguments of an interface do not change what it asks for. -/
def named (scope : Scope ε) (nested : Parser ε TypeExpr) : Parser ε TypeExpr := do
  let name ← qualifiedName
  if scope.typeParams.contains name.bare then
    if (← get).atMark .lbracket then
      fail s!"Type variable '{name.bare}' cannot take type arguments"
    else return .typeVar name.bare
  else
    let args ← typeArgs nested
    if name.last.startsWith "_" then return .interface name.bare (← lookup scope name.bare)
    else return .classRef name.text args

def literal? : TokenKind → Option Literal
  | .integer n => some (.int n)
  | .string s => some (.str s)
  | .symbol s => some (.symbol s)
  | .keyword (.truth b) => some (.bool b)
  | _ => none

/-- The key of a record field, with the mark after it. -/
def fieldKey : Parser ε Key := do
  let c ← get
  if c.atKeyword 0 then
    let name := (← advance).lexeme
    let _ ← advance
    return .str name
  else match literal? c.kind with
    | some l =>
      if c.kind 1 == .mark .fatArrow then
        let _ ← advance
        let _ ← advance
        return l.value
      else fail "Expected record key"
    | none => fail "Expected record key"

/-- Fields with commas between them, after the ones read so far. -/
def recordItems (nested : Parser ε TypeExpr) (fields : List (Field TypeExpr))
    (extra : Option TypeExpr) : (fuel : Nat) → Parser ε TypeExpr
  | 0 => exhausted
  | fuel + 1 => do
    let (fields, extra) ←
      if ← accept .starStar then
        if extra.isSome then fail "Only one '**' entry is allowed in a record"
        else pure (fields, some (← nested))
      else
        let optional ← accept .question
        let key ← fieldKey
        if fields.any (·.key.same key) then fail s!"Duplicate record key {key.render}"
        else pure (fields ++ [⟨key, ← nested, !optional⟩], extra)
    if ← accept .comma then recordItems nested fields extra fuel else return .record fields extra

def record (nested : Parser ε TypeExpr) : Parser ε TypeExpr := do
  expect .lbrace "Expected '\x7b'"
  let r ← if (← get).atMark .rbrace then pure (.record [] none) else
    recordItems nested [] none ((← get).tokens.length + 1)
  expect .rbrace "Expected '\x7d' after record fields"
  return r

/-- A tuple type, after its opening bracket. -/
def tuple (nested : Parser ε TypeExpr) : Parser ε TypeExpr := do
  let elements ← if (← get).atMark .rbracket then pure [] else separatedBy .comma nested
  expect .rbracket "Expected ']' after tuple elements"
  return .tuple elements

def singleton : Parser ε TypeExpr := do
  expect .lparen "Expected '(' after 'singleton'"
  let name ← qualifiedName
  expect .rparen "Expected ')' after singleton class name"
  return .singleton name.text

/-- Question marks after a type, each making it optional.  A question mark that starts an optional
keyword parameter is left alone. -/
def questionMarks (type : TypeExpr) : (fuel : Nat) → Parser ε TypeExpr
  | 0 => exhausted
  | fuel + 1 => do
    let c ← get
    if c.atMark .question && !c.atKeyword 1 then
      let _ ← advance
      questionMarks (.optional type) fuel
    else return type

/-- A proc type, after its caret.  Its result stops before `|` and `&`, which then combine procs. -/
def proc (nested result : Parser ε TypeExpr) : Parser ε TypeExpr := do
  let ps ← optionalParams nested
  let b ← optionalBlock nested
  expect .arrow "Expected '->' in proc type"
  return .proc ps (← result) b

/-- A type without operators after it.  `result` reads the result of a proc. -/
def primary (scope : Scope ε) (nested result : Parser ε TypeExpr) : Parser ε TypeExpr := do
  match (← get).kind with
  | .mark .lparen =>
    let _ ← advance
    let inner ← nested
    expect .rparen "Expected ')' after type"
    return inner
  | .mark .lbracket =>
    let _ ← advance
    tuple nested
  | .mark .lbrace => record nested
  | .mark .caret =>
    let _ ← advance
    proc nested result
  | .keyword .untyped =>
    let _ ← advance
    return .untyped
  | .keyword (.base b) =>
    let _ ← advance
    return .base b
  | .keyword .singleton =>
    let _ ← advance
    singleton
  | .mark .colonColon | .identifier => named scope nested
  | kind =>
    match literal? kind with
    | some l =>
      let _ ← advance
      return .literal l
    | none => fail "Expected a type"

/-- The node for one or more parts: a single part stands for itself. -/
def joined (join : List TypeExpr → TypeExpr) : List TypeExpr → TypeExpr
  | [t] => t
  | ts => join ts

mutual

/-- A primary type with its question marks. -/
def optionalType (scope : Scope ε) : (fuel : Nat) → Parser ε TypeExpr
  | 0 => exhausted
  | fuel + 1 => do
    let type ← primary scope (typeExpr scope fuel) (optionalType scope fuel)
    questionMarks type ((← get).tokens.length + 1)

def typeExpr (scope : Scope ε) : (fuel : Nat) → Parser ε TypeExpr
  | 0 => exhausted
  | fuel + 1 => do
    let part := optionalType scope fuel
    let alternative := do return joined .intersection (← separatedBy .ampersand part)
    return joined .union (← separatedBy .pipe alternative)

end

/-! ## Whole texts -/

/-- A type expression, with as much fuel as its tokens can use. -/
def nestedType (scope : Scope ε) : Parser ε TypeExpr := do
  typeExpr scope (2 * (← get).tokens.length + 2)

/-- Nothing may be left. -/
def expectEnd : Parser ε Unit := do
  let c ← get
  if c.kind == .endOfText then return () else fail s!"Unexpected '{c.token.lexeme}' after type"

def wholeType (scope : Scope ε) : Parser ε TypeExpr := do
  let type ← nestedType scope
  expectEnd
  return type

/-- Names of type variables with commas between them, after the ones read so far. -/
def typeParamNames (names : List String) : (fuel : Nat) → Parser ε (List String)
  | 0 => exhausted
  | fuel + 1 => do
    let name ← expectIdentifier "Expected type variable name"
    if names.contains name then fail s!"Duplicate type variable '{name}'"
    else if ← accept .comma then typeParamNames (names ++ [name]) fuel
    else return names ++ [name]

/-- The type variables of a signature in brackets, or none. -/
def typeParams : Parser ε (List String) := do
  if ← accept .lbracket then
    let names ← typeParamNames [] ((← get).tokens.length + 1)
    expect .rbracket "Expected ']' after type variables"
    return names
  else return []

def wholeSignature (resolve : String → Except ε (List (Capability TypeExpr))) (text : String) :
    Parser ε Signature := do
  let names ← typeParams
  let scope : Scope ε := ⟨names, resolve⟩
  let ps ← optionalParams (nestedType scope)
  let b ← optionalBlock (nestedType scope)
  expect .arrow "Expected '->' before return type"
  let result ← nestedType scope
  expectEnd
  return ⟨ps, result, b, names, text⟩

end Parser

end Conformance
