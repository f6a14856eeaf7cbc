/-!
# Classes

A class is known by the module it lives in and its name there.  Its type name is how it appears in
messages: built-in classes by their name alone, all others with their module.
-/

namespace Conformance

/-- A class, by home module and name. -/
structure ClassId where
  home : String
  name : String
  deriving DecidableEq, Repr, Inhabited

namespace ClassId

def builtinHome : String := "builtins"

def builtin (name : String) : ClassId := ⟨builtinHome, name⟩

def container (name : String) : ClassId := ⟨"collections.abc", name⟩

def standIn (name : String) : ClassId := ⟨"sigconf.convertibles", name⟩

/-- A class declared by the program under test. -/
def declared (name : String) : ClassId := ⟨"app", name⟩

/-- How a class appears in messages. -/
def typeName (c : ClassId) : String := if c.home == builtinHome then c.name else c.home ++ "." ++ c.name

/-- How a class is named in the complaints of a running program: by its name alone, unless it belongs to
one of the modules that are part of the system. -/
def complaintName (c : ClassId) : String :=
  if ["collections", "decimal", "datetime", "re", "_io"].contains c.home then c.typeName else c.name

def written (c : ClassId) : String := "<class '" ++ c.typeName ++ "'>"

end ClassId

end Conformance
