import Conformance.Program.Arity
import Conformance.Program.Item

/-!
# Conversions

What the native classes make of their arguments (`Program.convert`).  A class first looks at how it takes
arguments at all, and then asks its argument to be what it needs: declared classes may answer with methods of
their own, natives have what they are, and the rest is complained about.
-/

namespace Conformance

namespace Program

def valueError {α : Type} (message : String) : Run α := throw (.builtin "ValueError" message)

/-! ## Collections -/

/-- A value that has just been made: one that equals nothing but itself gets a cell, and so stays itself
wherever it goes. -/
def made (v : Value) : Run Value := if v.isIndividual then modifyGet (·.keep v) else return v

/-- A value as it is kept as a key or an element of a set: by what it is, unless it is an individual. -/
def asKey (v : Value) : Run Value := do
  let w := (← get).resolve v
  return if w.isIndividual then v else w

/-- Elements of a set with one more, unless there is one like it. -/
def insertElement (p : Program) (call : Caller) (items : List Value) (v : Value) : Run (List Value) := do
  match ← p.place? call items v with
  | some _ => return items
  | none => return items ++ [← asKey v]

/-- Entries with one more: a key like it keeps its place and its first form. -/
def insertEntry (p : Program) (call : Caller) (entries : List (Value × Value)) (e : Value × Value) :
    Run (List (Value × Value)) := do
  match ← p.place? call (entries.map (·.1)) e.1 with
  | some i => return entries.modify i fun old => (old.1, e.2)
  | none => return entries ++ [(← asKey e.1, e.2)]

/-- A computation whose type errors are complained about in other words. -/
def rephrased {α : Type} (p : Program) (message : String) (run : Run α) : Run α :=
  tryCatch run fun r => if p.isSubclass r.error (.builtin "TypeError") then typeError message else throw r

/-- The two elements of the `index`-th pair that a mapping is made from. -/
def pairOf (p : Program) (call : Caller) (v : Value) (index : Nat) : Run (Value × Value) := do
  let feed ← p.rephrased s!"cannot convert dictionary update sequence element #{index} to a sequence"
    (p.feed call v)
  match ← p.drain call (feed.bound p.feedLimit (← get)) feed with
  | [key, w] => return (key, w)
  | vs =>
    valueError s!"dictionary update sequence element #{index} has length {vs.length}; 2 is required"

/-- The two elements of a pair that an ordered mapping is made from.  No more are taken than it takes to see
that there are too many. -/
def unpackedPair (p : Program) (call : Caller) (v : Value) : Run (Value × Value) := do
  match ← p.next call (← p.feed call v) with
  | none => valueError "need more than 0 values to unpack"
  | some (key, rest) =>
    match ← p.next call rest with
    | none => valueError "need more than 1 value to unpack"
    | some (w, rest) =>
      match ← p.next call rest with
      | none => return (key, w)
      | some _ => valueError "too many values to unpack (expected 2)"

/-- The entries of what a mapping is made from: something with keys, or pairs.  Each is put in before the next
is asked for.  A mapping that is not ordered asks for the method that gives the keys once to see that there is
one, and once more to call it. -/
def entriesOf (p : Program) (call : Caller) (ordered : Bool) (v : Value) : Run (List (Value × Value)) := do
  match ← p.ask call v "keys" with
  | some method =>
    let keys ← if ordered then call method [] [] else p.keysOf call v
    let insertAt (entries : List (Value × Value)) (key : Value) : Run (List (Value × Value)) := do
      p.insertEntry call entries (key, ← p.item call v key)
    p.foldElements call insertAt [] keys
  | none =>
    let insertPair (soFar : List (Value × Value) × Nat) (w : Value) : Run (List (Value × Value) × Nat) := do
      let pair ← if ordered then p.unpackedPair call w else p.pairOf call w soFar.2
      return (← p.insertEntry call soFar.1 pair, soFar.2 + 1)
    return (← p.foldElements call insertPair ([], 0) v).1

/-- The entries that a mapping can take over as they are, keys and all, from another one. -/
def readyEntries? (p : Program) (kind : MappingKind) (v : Value) : Run (Option (List (Value × Value))) := do
  match kind, ((← get).resolve v).core, ← p.special? v "__iter__" with
  | .orderedDict, _, _ => return none
  | _, .mapping .dict entries, some (.native _ _ _) => return some entries
  | _, _, _ => return none

def mappingFrom (p : Program) (call : Caller) (kind : MappingKind) (args : List Value)
    (keywords : List (String × Value)) : Run Value := do
  let named := keywords.map fun k => (Value.str k.1, k.2)
  let withNamed (entries : List (Value × Value)) : Run Value := do
    made (.mapping kind (← named.foldlM (p.insertEntry call) entries))
  match kind, args with
  | _, [] => withNamed []
  | kind, [v] =>
    match ← p.readyEntries? kind v with
    | some entries => withNamed entries
    | none => do withNamed (← p.entriesOf call (kind == .orderedDict) v)
  | .orderedDict, args => typeError s!"expected at most 1 arguments, got {args.length}"
  | kind, args => typeError s!"{kind.classId.name} expected at most 1 argument, got {args.length}"

/-- A set of the elements of a value; those of another set and the keys of a mapping are taken as they are. -/
def setFrom (p : Program) (call : Caller) (kind : SequenceKind) (v : Option Value) : Run Value := do
  match v with
  | none => return .sequence kind []
  | some v =>
    match (← get).resolve v, ((← get).resolve v).core with
    | _, .sequence .set items | _, .sequence .frozenset items => return .sequence kind items
    | .mapping .dict entries, _ => return .sequence kind (entries.map (·.1))
    | _, _ => return .sequence kind (← p.foldElements call (p.insertElement call) [] v)

/-- The complaint about an integer that cannot be a size. -/
def tooLargeForSize : String := "Python int too large to convert to C ssize_t"

/-- A deque of the elements of a value; a limit on its size keeps the last of them. -/
def dequeOf (p : Program) (call : Caller) (iterable limit : Option Value) : Run Value := do
  let limit? ← match limit.map (← get).resolve with
    | none | some .null => pure none
    | some w =>
      match w.integer? with
      | none => typeError "an integer is required"
      | some n =>
        if largestSize < n.natAbs then throw (.builtin "OverflowError" tooLargeForSize)
        else if n < 0 then valueError "maxlen must be non-negative"
        else pure (some n.toNat)
  let items ← match iterable with
    | none => pure []
    | some v => p.elements call v
  return .sequence .deque (match limit? with
    | none => items
    | some n => items.drop (items.length - n))

/-! ## Numbers -/

/-- A form cut to what a complaint shows of it. -/
def shortened (shown : String) : String := String.ofList (shown.toList.take 200)

/-- The characters of a text or a row of bytes. -/
def literal? (v : Value) : Option (List Char) :=
  match v.core with
  | .str s => some s.toList
  | .bytes _ data => some (data.map fun b => if b < 128 then Char.ofNat b else '?')
  | _ => none

def readInteger (p : Program) (call : Caller) (base : Nat) (v : Value) (cs : List Char) : Run Value := do
  match Text.readInBase? base cs with
  | none =>
    let shown ← match ((← get).resolve v).core with
      | .bytes _ data => pure (Text.quotedBytes data)
      | _ => p.shown call v
    valueError (s!"invalid literal for int() with base {base}: " ++ shortened shown)
  | some (n, digits) =>
    -- digits of a base that is a power of two are read without a limit
    if Text.digitLimit < digits && !([2, 4, 8, 16, 32].contains base) then
      valueError (Text.tooManyDigits s!": value has {digits} digits")
    else return .int n

def integerPart : Number → Run Value
  | .int n => return .int n
  | .fraction num den => return .int (num.tdiv den)
  | .float .nan => valueError "cannot convert float NaN to integer"
  | .float (.infinite _) => throw (.builtin "OverflowError" "cannot convert float infinity to integer")
  | .float x => return .int (x.truncate?.getD 0)
  | .decimal (.nan _ _ _) => valueError "cannot convert NaN to integer"
  | .decimal (.infinite _) => throw (.builtin "OverflowError" "cannot convert Infinity to integer")
  | .decimal x => return .int (x.truncate?.getD 0)
  | .complex _ _ =>
    typeError "int() argument must be a string, a bytes-like object or a real number, not 'complex'"

def integerFrom (call : Caller) (method : Attribute) (complaint : String → String) : Run Value := do
  let r ← call method [] []
  match Value.integer? ((← get).resolve r) with
  | some n => return .int n
  | none => do typeError (complaint (Value.kindName ((← get).resolve r)))

def integerOf (p : Program) (call : Caller) (v : Value) : Run Value := do
  let w := (← get).resolve v
  match ← p.scripted? v "__int__", w.number?, ← p.special? v "__index__" with
  | some method, _, _ => integerFrom call method fun kind => s!"__int__ returned non-int (type {kind})"
  | none, some x, _ => integerPart x
  | none, none, some _ => return .int (← p.position call v)
  | none, none, none =>
    match ← p.scripted? v "__trunc__", literal? w with
    | some method, _ => integerFrom call method fun kind => s!"__trunc__ returned non-Integral (type {kind})"
    | none, some cs => p.readInteger call 10 v cs
    | none, none =>
      typeError s!"int() argument must be a string, a bytes-like object or a real number, not '{w.kindName}'"

def integerInBase (p : Program) (call : Caller) (v base : Value) : Run Value := do
  let n ← p.position call base
  if (n != 0 && n < 2) || 36 < n then valueError "int() base must be >= 2 and <= 36, or 0"
  match literal? ((← get).resolve v), ((← get).resolve v).core with
  | none, _ | _, .bytes .memoryview _ => typeError "int() can't convert non-string with explicit base"
  | some cs, _ => p.readInteger call n.toNat v cs

def nearestDouble : Number → Run Double
  | .int n => do
    match Number.integerDouble n with
    | .ok x => return x
    | .error e => throw ⟨e.classId, [e.subject]⟩
  | .fraction num den => do
    match Number.quotientDouble num den with
    | .ok x => return x
    | .error e => throw ⟨e.classId, [e.subject]⟩
  | .float x | .complex x _ => return x
  | .decimal (.nan _ true _) => valueError "cannot convert signaling NaN to float"
  | .decimal x => return (Double.readLoose? x.render).getD .nan

/-- What a value converts to as a double by what it has; `none` if it is no number. -/
def realOf? (p : Program) (call : Caller) (v : Value) : Run (Option Double) := do
  let w := (← get).resolve v
  let float (r : Value) : Run (Option Double) := do
    match ((← get).resolve r).core with
    | .float x => return some x
    | inner => typeError s!"{w.classOf.name}.__float__ returned non-float (type {inner.kindName})"
  match ← p.scripted? v "__float__", w.number?, w with
  | some method, _, _ => do float (← call method [] [])
  | none, some (.complex _ _), _ => return none
  | none, some x, _ => return some (← nearestDouble x)
  | none, none, .standIn .toF inner => float inner
  | none, none, _ =>
    match ← p.special? v "__index__" with
    | none => return none
    | some _ => return some (← nearestDouble (.int (← p.position call v)))

def doubleOf (p : Program) (call : Caller) (v : Value) : Run Double := do
  let w := (← get).resolve v
  match ← p.realOf? call v, literal? w with
  | some x, _ => return x
  | none, some cs =>
    match Double.readLoose? (String.ofList cs) with
    | some x => return x
    | none => do valueError ("could not convert string to float: " ++ shortened (← p.shown call v))
  | none, none => typeError s!"float() argument must be a string or a real number, not '{w.kindName}'"

/-- The complex number that is written: a real part, an imaginary part, or both. -/
def readComplex? (s : String) : Option (Double × Double) :=
  let zero : Double := .finite false 0 Double.minExponent
  let inner (cs : List Char) : List Char := match cs, cs.getLast? with
    | '(' :: rest, some ')' => Text.trimMargins rest.dropLast
    | cs, _ => cs
  let cs := inner (Text.trimMargins s.toList)
  let reads (cs : List Char) : Option Double := Double.readLoose? (String.ofList cs)
  match cs.reverse with
  | last :: body =>
    if last.toLower != 'j' then (reads cs).map (·, zero) else
    let unsigned := body.takeWhile fun c => c != '+' && c != '-'
    let rest := body.drop unsigned.length
    let (part, real) := match rest with
      | sign :: 'e' :: more | sign :: 'E' :: more =>
        let mantissa := more.takeWhile fun c => c != '+' && c != '-'
        let before := more.drop mantissa.length
        (before.take 1 ++ mantissa.reverse ++ 'e' :: sign :: unsigned.reverse, before.drop 1)
      | rest => (rest.take 1 ++ unsigned.reverse, rest.drop 1)
    let imaginary := if part == [] || part == ['+'] || part == ['-'] then part ++ ['1'] else part
    match reads imaginary, if real.isEmpty then some zero else reads real.reverse with
    | some im, some re => some (re, im)
    | _, _ => none
  | [] => none

/-- Does a value convert to a real number, or is it a complex one? -/
def isNumeric (p : Program) (v : Value) : Run Bool := do
  return ((← get).resolve v).number?.isSome || (← p.special? v "__float__").isSome
    || (← p.special? v "__index__").isSome

/-- The parts of a number that a complex number is made from, and whether it is complex. -/
def complexParts (p : Program) (call : Caller) : Option Value → Run (Double × Double × Bool)
  | none => return (.finite false 0 Double.minExponent, .finite false 0 Double.minExponent, false)
  | some v => do
    match ((← get).resolve v).core with
    | .complex re im => return (re, im, true)
    | _ => return ((← p.realOf? call v).getD .nan, .finite false 0 Double.minExponent, false)

/-- Makes sure that an argument is a number. -/
def requireNumber (p : Program) (complaint : String → String) : Option Value → Run Unit
  | none => return ()
  | some v => do
    if !(← p.isNumeric v) then typeError (complaint (Value.kindName ((← get).resolve v)))

/-- The complex number that two numbers make, the second one times the imaginary unit. -/
def complexOf (p : Program) (call : Caller) (real imaginary : Option Value) : Run Value := do
  let world ← get
  match real.map fun v => (world.resolve v).core, imaginary.map fun v => (world.resolve v).core with
  | some (.str _), some _ => typeError "complex() can't take second arg if first is a string"
  | some (.str s), none =>
    match readComplex? s with
    | some (re, im) => return .complex re im
    | none => valueError "complex() arg is a malformed string"
  | _, some (.str _) => typeError "complex() second arg can't be a string"
  | _, _ =>
    p.requireNumber (fun kind => s!"complex() first argument must be a string or a number, not '{kind}'") real
    p.requireNumber (fun kind => s!"complex() second argument must be a number, not '{kind}'") imaginary
    let (re, im, isComplex) ← p.complexParts call real
    let (re', im', isComplex') ← p.complexParts call imaginary
    return .complex (if isComplex' then re.add im'.negate else re) (if isComplex then im.add re' else re')

/-- Digits in groups that single underscores divide, and what follows them. -/
def digitsFirst (cs : List Char) : List Char × List Char :=
  let body := cs.takeWhile fun c => Text.isDigit c || c == '_'
  let kept := (body.reverse.dropWhile (· == '_')).reverse
  (kept, cs.drop kept.length)

/-- The fraction that is written: whole, with a denominator, or as a decimal number. -/
def readFraction? (s : String) : Option (Int × Int) :=
  let (negative, cs) := match (Text.trim s).toList with
    | '-' :: cs => (true, cs)
    | '+' :: cs => (false, cs)
    | cs => (false, cs)
  let value (ds : List Char) : Option Int := (Text.digitGroups? false ds).map fun ds => (Text.readDigits ds : Int)
  let signed (n : Int) : Int := if negative then -n else n
  let (whole, rest) := digitsFirst cs
  match whole, rest with
  | _ :: _, '/' :: ds =>
    match value whole, value ds with
    | some n, some d => some (signed n, d)
    | _, _ => none
  | whole, rest =>
    let (part, rest) := match rest with
      | '.' :: r => digitsFirst r
      | r => ([], r)
    let exponent : Option Int := match rest with
      | [] => some 0
      | mark :: r =>
        if mark.toLower != 'e' then none else
        match r with
        | '-' :: ds => (value ds).map (-·)
        | '+' :: ds => value ds
        | ds => value ds
    let digits (ds : List Char) : Option Int := if ds.isEmpty then some 0 else value ds
    if whole.isEmpty && part.isEmpty then none else
    match digits whole, digits part, exponent with
    | some n, some d, some e =>
      let scale : Nat := (part.filter (· != '_')).length
      some (signed ((n * Nat.pow 10 scale + d) * Double.tenTo e), (Nat.pow 10 scale * Double.tenTo (-e) : Nat))
    | _, _, _ => none

/-- The fraction of a numerator and a denominator, or what a single value is as one. -/
def fractionOf (p : Program) (call : Caller) (numerator denominator : Option Value) : Run Value := do
  let world ← get
  let rational? (v : Value) : Option (Int × Nat) := (world.resolve v).number?.bind Number.rational?
  let quotient (num den : Int) : Run Value := do
    if den == 0 then throw (.builtin "ZeroDivisionError" s!"Fraction({num}, 0)") else return .fractionOf num den
  match numerator.getD (.int 0), denominator.filter fun v => !(world.resolve v).isNull with
  | n, some d =>
    match rational? n, rational? d with
    | some (a, b), some (c, e) =>
      if c == 0 then do
        let shown ← p.textOf call n
        throw (.builtin "ZeroDivisionError" s!"Fraction({shown}, 0)")
      else quotient (a * e) (b * c)
    | _, _ => typeError "both arguments should be Rational instances"
  | n, none =>
    match (world.resolve n).number?, (world.resolve n).core with
    | some (.int m), _ => return .fraction m 1
    | some (.fraction m d), _ => return .fraction m d
    | some (.float x), _ =>
      match x with
      | .nan => valueError "cannot convert NaN to integer ratio"
      | .infinite _ => throw (.builtin "OverflowError" "cannot convert Infinity to integer ratio")
      | x => quotient (x.ratio?.getD (0, 1)).1 (x.ratio?.getD (0, 1)).2
    | some (.decimal x), _ =>
      match x with
      | .nan _ _ _ => valueError "cannot convert NaN to integer ratio"
      | .infinite _ => throw (.builtin "OverflowError" "cannot convert Infinity to integer ratio")
      | x => quotient (x.ratio?.getD (0, 1)).1 (x.ratio?.getD (0, 1)).2
    | none, .str s =>
      match readFraction? s with
      | some (a, b) => quotient a b
      | none => do valueError ("Invalid literal for Fraction: " ++ (← p.shown call n))
    | _, _ => typeError "argument should be a string or a Rational instance"

/-- The decimal number that a sign, digits and an exponent make. -/
def decimalOfParts : List Value → Run Value
  | [sign, digits, exponent] => do
    let world ← get
    let sign ← match (world.resolve sign).core with
      | .int 0 | .bool false => pure false
      | .int 1 | .bool true => pure true
      | _ => valueError "sign must be an integer with the value 0 or 1"
    let digits ← match (world.resolve digits).core with
      | .sequence .tuple items | .sequence .list items =>
        items.foldlM (fun (n : Nat) v => match Value.integer? (world.resolve v) with
          | some d => if 0 ≤ d && d ≤ 9 then return 10 * n + d.toNat
            else valueError "coefficient must be a tuple of digits"
          | none => valueError "coefficient must be a tuple of digits") 0
      | _ => valueError "coefficient must be a tuple of digits"
    match (world.resolve exponent).core, Value.integer? (world.resolve exponent) with
    | .str "F", _ => return .decimal (.infinite sign)
    | .str "n", _ => return .decimal (.nan sign false digits)
    | .str "N", _ => return .decimal (.nan sign true digits)
    | .str _, _ => valueError "string argument in the third position must be 'F', 'n' or 'N'"
    | _, some e => return .decimal (.finite sign digits e)
    | _, none => valueError "exponent must be an integer"
  | _ => valueError "argument must be a sequence of length 3"

def decimalOf (value context : Option Value) : Run Value := do
  let world ← get
  match context.map world.resolve with
  | none | some .null => pure ()
  | some _ => typeError "optional argument must be a context"
  match value.map world.resolve with
  | none => return .decimal (.finite false 0 0)
  | some w =>
    match w.number?, w.core with
    | some (.int n), _ => return .decimal (.ofInt n)
    | some (.float x), _ => return .decimal (.ofDouble x)
    | some (.decimal x), _ => return .decimal x
    | _, .str s =>
      match Decimal.read? s with
      | some x => return .decimal x
      | none => throw ⟨DecimalError.classId .malformed, [DecimalError.subject .malformed]⟩
    | _, .sequence .tuple items | _, .sequence .list items => decimalOfParts items
    | _, _ => typeError s!"conversion from {w.kindName} to Decimal is not supported"

/-! ## Texts and bytes -/

def textArgument (className name : String) (v : Option Value) : Run (Option String) := do
  match v.map (← get).resolve with
  | none => return none
  | some w =>
    match w.core with
    | .str s => return some s
    | inner =>
      let kind := if inner.isNull then "None" else w.kindName
      typeError s!"{className}() argument '{name}' must be str, not {kind}"

/-- The name of an encoding without the marks that make no difference. -/
def encodingName (s : String) : String :=
  String.ofList ((s.toList.map fun c => if c == '_' || c == ' ' then '-' else c.toLower).filter (· != '-'))

/-- Makes sure that an encoding is one that texts have. -/
def requireEncoding (s : String) : Run Unit :=
  if ["utf8", "ascii", "usascii", "u8", "utf", "cp65001"].contains (encodingName s) then return ()
  else throw (.builtin "LookupError" s!"unknown encoding: {s}")

def textFor (p : Program) (call : Caller) (v : Option Value) (encoding errors : Option Value) : Run Value := do
  let encoding ← textArgument "str" "encoding" encoding
  let errors ← textArgument "str" "errors" errors
  match v, encoding, errors with
  | none, _, _ => return .str ""
  | some v, none, none => return .str (← p.textOf call v)
  | some v, _, _ =>
    let w := (← get).resolve v
    match w.core with
    | .str _ => typeError "decoding str is not supported"
    | .bytes _ data =>
      requireEncoding (encoding.getD "utf-8")
      return .str ((String.fromUTF8? ⟨(data.map fun b => b.toUInt8).toArray⟩).getD "")
    | _ => typeError s!"decoding to str: need a bytes-like object, {w.kindName} found"

def longestBytes : Nat := 10000000

def bytesFrom (p : Program) (call : Caller) (complaint : String) : (fuel : Nat) → Feed → Run (List Nat)
  | 0, _ => throw ⟨.builtin "MemoryError", []⟩
  | fuel + 1, feed => do
    match ← p.next call feed with
    | none => return []
    | some (v, rest) =>
      let n ← p.position call v
      if n < 0 || 255 < n then valueError complaint
      return n.toNat :: (← p.bytesFrom call complaint fuel rest)

def countOf? (p : Program) (call : Caller) (v : Value) : Run (Option Nat) := do
  match ← p.special? v "__index__" with
  | none => return none
  | some _ =>
    let n? ← tryCatch (some <$> p.position call v) fun r =>
      if p.isSubclass r.error (.builtin "TypeError") then return none else throw r
    match n? with
    | none => return none
    | some n =>
      if largestSize < n.natAbs then
        throw (.builtin "OverflowError" (doesNotFit ((← get).resolve v)))
      if n < 0 then valueError "negative count"
      if longestBytes < n.toNat then throw ⟨.builtin "MemoryError", []⟩
      return some n.toNat

def ownBytes? (p : Program) (call : Caller) (v : Value) : Run (Option (List Nat)) := do
  let w := (← get).resolve v
  let bytes (r : Value) : Run (Option (List Nat)) := do
    match ((← get).resolve r).core with
    | .bytes .bytes data => return some data
    | _ => do typeError s!"__bytes__ returned non-bytes (type {Value.kindName ((← get).resolve r)})"
  match w, ← p.scripted? v "__bytes__" with
  | .standIn .toBytes inner, _ => bytes inner
  | .path t, _ => return some (t.toUTF8.toList.map UInt8.toNat)
  | _, some method => do bytes (← call method [] [])
  | _, none => return none

/-- The bytes that a value converts to: a text needs an encoding, a number counts zeros. -/
def bytesOf (p : Program) (call : Caller) (kind : BytesKind) (source encoding errors : Option Value) :
    Run Value := do
  let name := kind.classId.name
  let fixed := kind == .bytes
  let encoding ← textArgument name "encoding" encoding
  let errors ← textArgument name "errors" errors
  let bare : String := (if encoding.isSome then "encoding" else "errors") ++ " without a string argument"
  match source with
  | none => if encoding.isSome || errors.isSome then typeError bare else return .bytes kind []
  | some v =>
    let w := (← get).resolve v
    match w.core, encoding with
    | .str s, some e =>
      requireEncoding e
      return .bytes kind (s.toUTF8.toList.map UInt8.toNat)
    | .str _, none =>
      match ← if fixed && errors.isNone then p.ownBytes? call v else pure none with
      | some data => return .bytes kind data
      | none => typeError "string argument without an encoding"
    | inner, _ =>
      if encoding.isSome || errors.isSome then typeError bare
      match ← if fixed then p.ownBytes? call v else pure none with
      | some data => return .bytes kind data
      | none =>
        match ← p.countOf? call v, inner with
        | some n, _ => return .bytes kind (List.replicate n 0)
        | none, .bytes _ data => return .bytes kind data
        | none, _ =>
          let feed ← p.rephrased s!"cannot convert '{w.kindName}' object to {name}" (p.feed call v)
          if fixed then p.expectSize call v
          let complaint := (if fixed then "bytes" else "byte") ++ " must be in range(0, 256)"
          return .bytes kind (← p.bytesFrom call complaint (feed.bound p.feedLimit (← get)) feed)

/-- The bytes that a view looks at. -/
def viewOf (v : Value) : Run Value := do
  let w := (← get).resolve v
  match w.core with
  | .bytes _ data => return .bytes .memoryview data
  | _ => typeError s!"memoryview: a bytes-like object is required, not '{w.kindName}'"

/-! ## Ranges and paths -/

/-- A range of one bound, of two, or of two and a step, which may not be 0. -/
def rangeOf (p : Program) (call : Caller) (args : List Value) : Run Value := do
  match args with
  | [stop] => return .range 0 (← p.position call stop) 1
  | start :: stop :: rest =>
    let a ← p.position call start
    let b ← p.position call stop
    match rest with
    | [] => return .range a b 1
    | step :: _ =>
      let c ← p.position call step
      if c == 0 then valueError "range() arg 3 must not be zero" else return .range a b c
  | [] => typeError "range expected at least 1 argument, got 0"

def pathText (p : Program) (call : Caller) (v : Value) : Run String := do
  let w := (← get).resolve v
  let refused {α : Type} : Run α :=
    typeError ("argument should be a str object or an os.PathLike object returning str, not " ++ w.classOf.written)
  match w.core, ← p.special? v "__fspath__" with
  | .str s, _ => return s
  | .path t, _ => return t
  | _, some method =>
    let r ← call method [] []
    match ((← get).resolve r).core with
    | .str s => return s
    | .bytes .bytes _ => refused
    | _ => do typeError (s!"expected {w.classOf.name}.__fspath__() to return str or bytes, not "
        ++ Value.kindName ((← get).resolve r))
  | _, none => refused

/-- The path that values name together: one that starts at the root replaces those before it. -/
def pathFrom (p : Program) (call : Caller) (args : List Value) : Run Value := do
  let parts ← args.mapM (p.pathText call)
  return .pathOf (parts.foldl (fun before part =>
    if part.startsWith "/" || before.isEmpty then part else before ++ "/" ++ part) "")

/-! ## Classes -/

/-- What a stand-in stands for when nothing is said. -/
def usual : StandInKind → Value
  | .toInt => .int 3
  | .toF => .float ((Double.read? "0.1").getD .nan)
  | .toStr => .str ""
  | .toBytes => .bytes .bytes []
  | .toPath => .str "/tmp/foo.txt"
  | .toIO => .stream "" 0

/-- The stand-in that a class makes of its arguments. -/
def standInOf (p : Program) (call : Caller) (name : String) (args : List Value) : Run Value := do
  match name, args with
  | "ToArray", args => return .sequence .toArray args
  | "ToHash", args =>
    match ← (args.take 1).filterM (p.isTrue call) with
    | [] => return .mapping .toHash []
    | v :: _ => p.mappingFrom call .toHash [v] []
  | name, args =>
    match [StandInKind.toInt, .toF, .toStr, .toBytes, .toPath, .toIO].find? (·.name == name) with
    | some kind => return .standIn kind (args.head?.getD (usual kind))
    | none => return .blank .blankSlate

/-- The complaint about a class that is not made by being called with these arguments. -/
def typeOf (args : List Value) (keywords : List (String × Value)) : Run Value := do
  let world ← get
  let wrong (i : Nat) (kind : String) (v : Value) : Run Value :=
    typeError s!"type.__new__() argument {i} must be {kind}, not {(world.resolve v).kindName}"
  match args, keywords with
  | [v], [] => return .classObject (world.resolve v).classOf
  | [_], _ => typeError "type() takes no keyword arguments"
  | [name, bases, members], _ =>
    match (world.resolve name).core, (world.resolve bases).core, (world.resolve members).core with
    | .str _, .sequence .tuple _, .mapping .dict _ => typeError "cannot create 'type' instances"
    | .str _, .sequence .tuple _, _ => wrong 3 "dict" members
    | .str _, _, _ => wrong 2 "tuple" bases
    | _, _, _ => wrong 1 "str" name
  | _, _ => typeError "type() takes 1 or 3 arguments"

/-- The name that complaints about the arguments of a class begin with, in full and in short. -/
def classLabels (c : ClassId) : String × String :=
  if c.home == "decimal" then ("", "")
  else if c.home == "fractions" || c.home == "pathlib" then (c.name ++ ".__new__", c.name)
  else (c.name ++ ".__init__", c.name)

/-- The value that a native class makes of its arguments. -/
def convert (p : Program) (call : Caller) (c : ClassId) (args : List Value) (keywords : List (String × Value)) :
    Run Value := do
  let arity := Arity.ofClass c
  let (full, short) := classLabels c
  match arity.complaint? full short args.length (keywords.map (·.1)) with
  | some complaint => typeError complaint
  | none => pure ()
  let arg (i : Nat) : Option Value := arity.argument? args keywords i
  if c.home == (ClassId.standIn "").home then p.standInOf call c.name (arity.ordered args keywords) else
  match c.name, arg 0, arg 1 with
  | "int", none, some _ => typeError "int() missing string argument"
  | "int", none, none => return .int 0
  | "int", some v, none => p.integerOf call v
  | "int", some v, some base => p.integerInBase call v base
  | "str", v, encoding => p.textFor call v encoding (arg 2)
  | "bool", none, _ => return .bool false
  | "bool", some v, _ => return .bool (← p.isTrue call v)
  | "float", none, _ => return .float (.finite false 0 Double.minExponent)
  | "float", some v, _ => return .float (← p.doubleOf call v)
  | "complex", real, imaginary => p.complexOf call real imaginary
  | "Fraction", numerator, denominator => p.fractionOf call numerator denominator
  | "Decimal", value, context => decimalOf value context
  | "list", none, _ => return .sequence .list []
  | "list", some v, _ => return .sequence .list (← p.listed call v)
  | "tuple", none, _ => return .sequence .tuple []
  | "tuple", some v, _ => return .sequence .tuple (← p.listed call v)
  | "set", v, _ => p.setFrom call .set v
  | "frozenset", v, _ => p.setFrom call .frozenset v
  | "deque", iterable, limit => p.dequeOf call iterable limit
  | "dict", _, _ => p.mappingFrom call .dict args keywords
  | "OrderedDict", _, _ => p.mappingFrom call .orderedDict args keywords
  | "bytes", source, encoding => p.bytesOf call .bytes source encoding (arg 2)
  | "bytearray", source, encoding => p.bytesOf call .bytearray source encoding (arg 2)
  | "memoryview", some v, _ => viewOf v
  | "range", _, _ => p.rangeOf call args
  | "PurePath", _, _ | "PurePosixPath", _, _ => p.pathFrom call args
  | "object", _, _ => return .blank .object
  | "type", _, _ => typeOf args keywords
  | name, _, _ => typeError s!"cannot create '{name}' instances"

end Program

end Conformance
