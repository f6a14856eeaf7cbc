import Conformance.Value.Normal

/-!
# Arithmetic of values

Numbers of different kinds meet in the wider kind: an integer counts as a fraction, a fraction as a
double, a double as a complex number.  Decimal numbers meet integers only.  A sum also joins texts, bytes
and sequences of one kind.  Where there is no result, `Incomputable` says why.
-/

namespace Conformance

/-- Why an operation has no result. -/
inductive Incomputable where
  | sum (left right : Value)
  | quotient (left right : Value)
  | negative (v : Value)
  | absolute (v : Value)
  /-- An integer is divided by zero. -/
  | integerByZero
  /-- A double is divided by zero. -/
  | doubleByZero
  /-- An integer is beyond all doubles. -/
  | integerTooLarge
  /-- A quotient is beyond all doubles. -/
  | quotientTooLarge
  /-- An absolute value is beyond all doubles. -/
  | absoluteTooLarge
  | decimal (e : DecimalError)
  deriving Inhabited

namespace DecimalError

def classId : DecimalError → ClassId
  | divisionByZero => ⟨"decimal", "DivisionByZero"⟩
  | _ => ⟨"decimal", "InvalidOperation"⟩

/-- What the error is about: the conditions that were met. -/
def subject (e : DecimalError) : Value :=
  .sequence .list [.classObject ⟨"decimal", match e with
    | malformed => "ConversionSyntax"
    | divisionByZero => "DivisionByZero"
    | undefinedQuotient => "DivisionUndefined"
    | longQuotient => "DivisionImpossible"
    | meaningless => "InvalidOperation"⟩]

end DecimalError

namespace Incomputable

/-- The class of the error that is raised. -/
def classId : Incomputable → ClassId
  | integerByZero | doubleByZero => .builtin "ZeroDivisionError"
  | integerTooLarge | quotientTooLarge | absoluteTooLarge => .builtin "OverflowError"
  | decimal e => e.classId
  | _ => .builtin "TypeError"

/-- The complaint about two operands. -/
def unsupported (symbol : String) (left right : Value) : String :=
  s!"unsupported operand type(s) for {symbol}: '{left.kindName}' and '{right.kindName}'"

/-- The complaint about a sum: a text or sequence says what it can be joined with. -/
def sumMessage (left right : Value) : String :=
  let joined (kind : String) := s!"can only concatenate {kind} (not \"{right.kindName}\") to {kind}"
  match left.core with
  | .str _ => joined "str"
  | .sequence .list _ => joined "list"
  | .sequence .tuple _ => joined "tuple"
  | .sequence .deque _ => joined "deque"
  | .bytes .bytes _ | .bytes .bytearray _ => s!"can't concat {right.kindName} to {left.kindName}"
  | _ => unsupported "+" left right

/-- What the error is about. -/
def subject : Incomputable → Value
  | sum left right => .str (sumMessage left right)
  | quotient left right => .str (unsupported "//" left right)
  | negative v => .str s!"bad operand type for unary -: '{v.kindName}'"
  | absolute v => .str s!"bad operand type for abs(): '{v.kindName}'"
  | integerByZero => .str "integer division or modulo by zero"
  | doubleByZero => .str "float floor division by zero"
  | integerTooLarge => .str "int too large to convert to float"
  | quotientTooLarge => .str "integer division result too large for a float"
  | absoluteTooLarge => .str "absolute value too large"
  | decimal e => e.subject

/-- The error in words. -/
def message (e : Incomputable) : String :=
  match e.subject with
  | .str s => s
  | _ => ""

end Incomputable

/-- A number by its kind. -/
inductive Number where
  | int (n : Int)
  | fraction (num : Int) (den : Nat)
  | float (x : Double)
  | complex (re im : Double)
  | decimal (x : Decimal)
  deriving Inhabited

namespace Number

def quotientDouble (num : Int) (den : Nat) : Except Incomputable Double :=
  match Double.round (decide (num < 0)) num.natAbs den with
  | .infinite _ => .error .quotientTooLarge
  | x => .ok x

def integerDouble (n : Int) : Except Incomputable Double :=
  match Double.ofInt n with
  | .infinite _ => .error .integerTooLarge
  | x => .ok x

def parts : Number → Option (Except Incomputable (Double × Double))
  | int n => some ((integerDouble n).map (·, .finite false 0 Double.minExponent))
  | fraction num den => some ((quotientDouble num den).map (·, .finite false 0 Double.minExponent))
  | float x => some (.ok (x, .finite false 0 Double.minExponent))
  | complex re im => some (.ok (re, im))
  | decimal _ => none

/-- The quotient that an exact number is. -/
def rational? : Number → Option (Int × Nat)
  | int n => some (n, 1)
  | fraction num den => some (num, den)
  | _ => none

def decimal? : Number → Option Decimal
  | int n => some (.ofInt n)
  | decimal x => some x
  | _ => none

/-- Does the kind of the first number know how to compute with the second one's?  The narrower kind leaves it
to the wider one. -/
def knows : Number → Number → Bool
  | int _, int _ | float _, int _ | float _, float _ | decimal _, int _ | decimal _, decimal _ => true
  | complex _ _, int _ | complex _ _, float _ | complex _ _, complex _ _ => true
  | fraction _ _, decimal _ => false
  | fraction _ _, _ => true
  | _, _ => false

/-- Does the kind of the first number know how to compare with the second one's?  Decimal numbers compare with
all others. -/
def compares : Number → Number → Bool
  | decimal _, _ => true
  | a, b => a.knows b

def isComplex : Number → Bool
  | complex _ _ => true
  | _ => false

def isNaN : Number → Bool
  | float .nan | decimal (.nan _ _ _) => true
  | _ => false

/-- Is it meaningless to ask which of two numbers is less?  It is when a decimal number meets what is no
number. -/
def isOrderless (a b : Number) : Bool :=
  match a, b with
  | complex _ _, _ | _, complex _ _ => false
  | decimal _, _ | _, decimal _ => a.isNaN || b.isNaN
  | _, _ => false

/-- The sum of two numbers, unless their kinds never meet. -/
def add (a b : Number) : Option (Except Incomputable Value) :=
  match a, b with
  | int m, int n => some (.ok (.int (m + n)))
  | decimal _, _ | _, decimal _ =>
    match a.decimal?, b.decimal? with
    | some x, some y => some (((x.add y).map .decimal).mapError .decimal)
    | _, _ => none
  | a, b =>
    match a.rational?, b.rational?, a.parts, b.parts with
    | some (m, d), some (n, e), _, _ => some (.ok (.fractionOf (m * e + n * d) (d * e)))
    | _, _, some x, some y => some do
      let (re, im) ← x
      let (re', im') ← y
      if a.isComplex || b.isComplex then return .complex (re.add re') (im.add im')
      return .float (re.add re')
    | _, _, _, _ => none

/-- The whole quotient of two numbers, toward negative infinity or, for decimal numbers, toward zero. -/
def floorQuotient (a b : Number) : Option (Except Incomputable Value) :=
  match a, b with
  | decimal _, _ | _, decimal _ =>
    match a.decimal?, b.decimal? with
    | some x, some y => some (((x.wholeQuotient y).map .decimal).mapError .decimal)
    | _, _ => none
  | a, b =>
    match a.rational?, b.rational?, a.parts, b.parts with
    | some (m, d), some (n, e), _, _ =>
      some (if n == 0 then .error .integerByZero else .ok (.int ((m * e).fdiv (d * n))))
    | _, _, some x, some y =>
      if a.isComplex || b.isComplex then none else some do
      let (x, _) ← x
      let (y, _) ← y
      if y.same (.finite false 0 0) then .error .doubleByZero else return .float (x.floorQuotient y)
    | _, _, _, _ => none

def negate : Number → Except Incomputable Value
  | int n => .ok (.int (-n))
  | fraction num den => .ok (.fraction (-num) den)
  | float x => .ok (.float x.negate)
  | complex re im => .ok (.complex re.negate im.negate)
  | decimal x => (x.negate.map .decimal).mapError .decimal

def absolute : Number → Except Incomputable Value
  | int n => .ok (.int n.natAbs)
  | fraction num den => .ok (.fraction num.natAbs den)
  | float x => .ok (.float x.absolute)
  | complex re im =>
    match re, im, re.hypotenuse im with
    | .finite _ _ _, .finite _ _ _, .infinite _ => .error .absoluteTooLarge
    | _, _, x => .ok (.float x)
  | decimal x => (x.absolute.map .decimal).mapError .decimal

end Number

namespace Value

def number? (v : Value) : Option Number :=
  match v.core with
  | bool b => some (.int b.toInt)
  | int n => some (.int n)
  | fraction num den => some (.fraction num den)
  | float x => some (.float x)
  | complex re im => some (.complex re im)
  | decimal x => some (.decimal x)
  | _ => none

/-- Are the values numbers, of which the first knows how to compute with the second? -/
def knowsNumber (a b : Value) : Bool :=
  match a.number?, b.number? with
  | some x, some y => x.knows y
  | _, _ => false

/-- Are the values numbers of which it is meaningless to ask which one is less? -/
def isOrderless (a b : Value) : Bool :=
  match a.number?, b.number? with
  | some x, some y => x.isOrderless y
  | _, _ => false

def isJoinable (v : Value) : Bool :=
  match v.core with
  | str _ | bytes .bytes _ | bytes .bytearray _ | sequence .list _ | sequence .tuple _ | sequence .deque _ => true
  | _ => false

/-- Two texts, rows of bytes or sequences of one kind, joined. -/
def join? (a b : Value) : Option Value :=
  match a.core, b.core with
  | str s, str t => some (str (s ++ t))
  | bytes .memoryview _, _ => none
  | bytes kind data, bytes _ more => some (bytes kind (data ++ more))
  | sequence .list xs, sequence .list ys => some (sequence .list (xs ++ ys))
  | sequence .tuple xs, sequence .tuple ys => some (sequence .tuple (xs ++ ys))
  | sequence .deque xs, sequence .deque ys => some (sequence .deque (xs ++ ys))
  | _, _ => none

/-- The sum of two values. -/
def add (a b : Value) : Except Incomputable Value :=
  match a.number?.bind fun x => b.number?.bind x.add, join? a b with
  | some r, _ => r
  | none, some v => .ok v
  | none, none => .error (.sum a b)

/-- The operands that a complaint about a quotient names: a fraction beside a complex number is taken for
one. -/
def quotientOperands (a b : Value) : Value × Value :=
  match a.core, b.core with
  | fraction _ _, complex re im => (complex re im, b)
  | complex re im, fraction _ _ => (a, complex re im)
  | _, _ => (a, b)

def floorQuotient (a b : Value) : Except Incomputable Value :=
  let (left, right) := quotientOperands a b
  match a.number?, b.number? with
  | some x, some y => (x.floorQuotient y).getD (.error (.quotient left right))
  | _, _ => .error (.quotient left right)

def negate (v : Value) : Except Incomputable Value := (v.number?.map Number.negate).getD (.error (.negative v))

def absolute (v : Value) : Except Incomputable Value := (v.number?.map Number.absolute).getD (.error (.absolute v))

end Value

end Conformance
