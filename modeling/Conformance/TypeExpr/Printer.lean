import Conformance.Text.Identifier
import Conformance.Text.Quoted
import Conformance.TypeExpr

/-!
# Printing type expressions

The normal form of a type expression or signature.  A union, an intersection or a proc is put in
parentheses wherever it stands inside a union, an intersection, an optional or a proc's result.
-/

namespace Conformance

namespace Key

/-- The written form of a key as a value. -/
def render : Key → String
  | int n => toString n
  | str s => Text.quoted s
  | bool b => if b then "True" else "False"

end Key

namespace Literal

def render : Literal → String
  | int n => toString n
  | str s => Text.quoted s
  | bool b => if b then "true" else "false"
  | symbol s => ":" ++ s

end Literal

def commaSeparated (items : List String) : String := ", ".intercalate items

namespace Param

def render (p : Param String) : String := p.name.elim p.type fun n => s!"{p.type} {n}"

end Param

namespace Params

def render (p : Params String) : String :=
  let parts :=
    p.required.map Param.render
    ++ p.optional.map (fun q => "?" ++ q.render)
    ++ p.rest.toList.map (fun q => "*" ++ q.render)
    ++ p.trailing.map Param.render
    ++ p.requiredKeywords.map (fun kq => kq.1 ++ ": " ++ kq.2.render)
    ++ p.optionalKeywords.map (fun kq => "?" ++ kq.1 ++ ": " ++ kq.2.render)
    ++ p.restKeywords.toList.map (fun q => "**" ++ q.render)
  "(" ++ commaSeparated parts ++ ")"

end Params

namespace Field

/-- A record field from the printed form of its type.  A key that is an identifier is written bare. -/
def render (f : Field String) : String :=
  let mark := if f.required then "" else "?"
  match f.key with
  | .str s => if Text.isIdentifier s then mark ++ s ++ ": " ++ f.type
    else mark ++ f.key.render ++ " => " ++ f.type
  | _ => mark ++ f.key.render ++ " => " ++ f.type

end Field

namespace Block

def render (b : Block String) : String :=
  (if b.required then "" else "?") ++ "\x7b " ++ b.params.render ++ " -> " ++ b.result ++ " \x7d"

end Block

namespace TypeExpr

/-- Is the expression put in parentheses inside another? -/
def isCompound : TypeExpr → Bool
  | union _ | intersection _ | proc _ _ _ => true
  | _ => false

mutual

def render : TypeExpr → String
  | untyped => "untyped"
  | base b => b.text
  | classRef name [] => name
  | classRef name (a :: as) => name ++ "[" ++ commaSeparated (renderAll (a :: as)) ++ "]"
  | singleton name => "singleton(" ++ name ++ ")"
  | interface name _ => name
  | union alternatives => " | ".intercalate (renderGrouped alternatives)
  | intersection parts => " & ".intercalate (renderGrouped parts)
  | tuple elements => "[" ++ commaSeparated (renderAll elements) ++ "]"
  | record fields extra =>
    let parts := renderFields fields ++ (renderExtra extra)
    if parts.isEmpty then "\x7b\x7d" else "\x7b " ++ commaSeparated parts ++ " \x7d"
  | literal l => l.render
  | typeVar name => name
  | optional inner =>
    (if inner.isCompound then "(" ++ inner.render ++ ")" else inner.render) ++ "?"
  | proc params result block =>
    "^" ++ (renderParams params).render ++ renderBlock block ++ " -> "
      ++ (if result.isCompound then "(" ++ result.render ++ ")" else result.render)

def renderAll : List TypeExpr → List String
  | [] => []
  | t :: ts => t.render :: renderAll ts

/-- The printed forms of a list of expressions, compound ones in parentheses. -/
def renderGrouped : List TypeExpr → List String
  | [] => []
  | t :: ts =>
    (if t.isCompound then "(" ++ t.render ++ ")" else t.render) :: renderGrouped ts

def renderFields : List (Field TypeExpr) → List String
  | [] => []
  | ⟨key, type, required⟩ :: fs => Field.render ⟨key, type.render, required⟩ :: renderFields fs

/-- The printed form of the entry for undeclared keys. -/
def renderExtra : Option TypeExpr → List String
  | none => []
  | some t => ["**" ++ t.render]

def renderParamList : List (Param TypeExpr) → List (Param String)
  | [] => []
  | ⟨type, name⟩ :: ps => ⟨type.render, name⟩ :: renderParamList ps

def renderParam? : Option (Param TypeExpr) → Option (Param String)
  | none => none
  | some ⟨type, name⟩ => some ⟨type.render, name⟩

def renderKeywords : List (String × Param TypeExpr) → List (String × Param String)
  | [] => []
  | (key, ⟨type, name⟩) :: ps => (key, ⟨type.render, name⟩) :: renderKeywords ps

def renderParams : Params TypeExpr → Params String
  | ⟨req, opt, rest, trailing, reqKeys, optKeys, restKeys⟩ =>
    ⟨renderParamList req, renderParamList opt, renderParam? rest, renderParamList trailing,
      renderKeywords reqKeys, renderKeywords optKeys, renderParam? restKeys⟩

/-- The printed form of a block, after a blank. -/
def renderBlock : Option (Block TypeExpr) → String
  | none => ""
  | some ⟨params, result, required⟩ =>
    " " ++ Block.render ⟨renderParams params, result.render, required⟩

end

end TypeExpr

namespace Params

def text (p : Params TypeExpr) : String := (TypeExpr.renderParams p).render

end Params

namespace Param

def text (p : Param TypeExpr) : String := Param.render ⟨p.type.render, p.name⟩

end Param

namespace Block

def text (b : Block TypeExpr) : String :=
  Block.render ⟨TypeExpr.renderParams b.params, b.result.render, b.required⟩

def proc (b : Block TypeExpr) : TypeExpr := .proc b.params b.result none

end Block

namespace Signature

def render (s : Signature) : String :=
  let binders := if s.typeParams.isEmpty then "" else "[" ++ commaSeparated s.typeParams ++ "] "
  binders ++ s.params.text ++ TypeExpr.renderBlock s.block ++ " -> " ++ s.result.render

/-- The text that stands for a signature in reports: the one it was read from, if known. -/
def label (s : Signature) : String := if s.text.isEmpty then s.render else s.text

end Signature

end Conformance
