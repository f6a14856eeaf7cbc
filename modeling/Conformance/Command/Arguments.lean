/-!
# Command-line arguments

How words on the command line are taken apart: options with one or two dashes, with or without a value,
and operands.  A word of two dashes ends the options.
-/

namespace Conformance

namespace Command

/-- An option that a command knows. -/
structure Flag where
  long : String
  short : Option Char := none
  takesValue : Bool := false
  deriving DecidableEq, Repr, Inhabited

/-- The options and operands of a command. -/
structure Arguments where
  /-- The long names of the options given, with their values, in order. -/
  options : List (String × String) := []
  operands : List String := []
  deriving DecidableEq, Repr, Inhabited

namespace Arguments

/-- Is the option given? -/
def has (a : Arguments) (long : String) : Bool := a.options.any (·.1 == long)

def value? (a : Arguments) (long : String) : Option String := a.options.reverse.lookup long

end Arguments

def isOption (word : String) : Bool := word.startsWith "-" && word != "-"

def splitLong (word : String) : String × Option String :=
  match word.splitOn "=" with
  | name :: part :: parts => (name, some ("=".intercalate (part :: parts)))
  | _ => (word, none)

def takeLong (flags : List Flag) (word : String) (rest : List String) :
    Option (String × String × List String) :=
  let (name, explicit) := splitLong word
  (flags.find? (·.long == name)).bind fun flag =>
    match flag.takesValue, explicit, rest with
    | false, none, rest => some (flag.long, "", rest)
    | false, some _, _ => none
    | true, some value, rest => some (flag.long, value, rest)
    | true, none, value :: rest => some (flag.long, value, rest)
    | true, none, [] => none

/-- Takes options of one letter each, without their dash.  One that takes a value takes what is left
of the word, or the next word. -/
def takeShort (flags : List Flag) : List Char → List String → Option (List (String × String) × List String)
  | [], rest => some ([], rest)
  | c :: cs, rest =>
    (flags.find? (·.short == some c)).bind fun flag =>
      match flag.takesValue, cs, rest with
      | false, cs, rest => (takeShort flags cs rest).map fun (os, rest) => ((flag.long, "") :: os, rest)
      | true, [], value :: rest => some ([(flag.long, value)], rest)
      | true, [], [] => none
      | true, cs, rest => some ([(flag.long, String.ofList cs)], rest)

def takeOption (flags : List Flag) (word : String) (rest : List String) :
    Option (List (String × String) × List String) :=
  match takeLong flags word rest with
  | some (long, value, rest) => some ([(long, value)], rest)
  | none =>
    if word.startsWith "--" || flags.any (·.long == (splitLong word).1) then none
    else takeShort flags (word.toList.drop 1) rest

/-- Takes words apart.  Where `interspersed` is false the first operand ends the options.  There is no
result when an option is not known or lacks its value. -/
def parseWords (flags : List Flag) (interspersed : Bool) :
    (fuel : Nat) → Arguments → List String → Option Arguments
  | 0, a, words => some { a with operands := a.operands ++ words }
  | _ + 1, a, [] => some a
  | fuel + 1, a, word :: rest =>
    if word == "--" then some { a with operands := a.operands ++ rest }
    else if isOption word then
      (takeOption flags word rest).bind fun (options, rest) =>
        parseWords flags interspersed fuel { a with options := a.options ++ options } rest
    else if interspersed then
      parseWords flags interspersed fuel { a with operands := a.operands ++ [word] } rest
    else some { a with operands := a.operands ++ word :: rest }

def arguments? (flags : List Flag) (interspersed : Bool) (words : List String) : Option Arguments :=
  parseWords flags interspersed (words.length + 1) {} words

end Command

end Conformance
