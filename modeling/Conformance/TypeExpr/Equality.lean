import Conformance.TypeExpr

/-!
# Equality of type expressions

`TypeExpr.same` compares trees node by node.  Literals and record keys are compared as values, so the
literal `1` equals the literal `true`; everything else has to be written alike.
-/

namespace Conformance

namespace TypeExpr

mutual

def same : TypeExpr → TypeExpr → Bool
  | untyped, u => match u with
    | untyped => true
    | _ => false
  | base b, u => match u with
    | base c => b == c
    | _ => false
  | classRef name args, u => match u with
    | classRef n as => name == n && sameAll args as
    | _ => false
  | singleton name, u => match u with
    | singleton n => name == n
    | _ => false
  | interface name methods, u => match u with
    | interface n ms => name == n && sameMethods methods ms
    | _ => false
  | union ts, u => match u with
    | union us => sameAll ts us
    | _ => false
  | intersection ts, u => match u with
    | intersection us => sameAll ts us
    | _ => false
  | tuple ts, u => match u with
    | tuple us => sameAll ts us
    | _ => false
  | record fields extra, u => match u with
    | record fs e => sameFields fields fs && sameOption extra e
    | _ => false
  | literal l, u => match u with
    | literal m => l.same m
    | _ => false
  | typeVar name, u => match u with
    | typeVar n => name == n
    | _ => false
  | optional inner, u => match u with
    | optional i => inner.same i
    | _ => false
  | proc params result block, u => match u with
    | proc p r b => sameParams params p && result.same r && sameBlock block b
    | _ => false

def sameAll : List TypeExpr → List TypeExpr → Bool
  | [], us => us.isEmpty
  | t :: ts, us => match us with
    | u :: us => t.same u && sameAll ts us
    | [] => false

def sameOption : Option TypeExpr → Option TypeExpr → Bool
  | none, u => u.isNone
  | some t, u => match u with
    | some u => t.same u
    | none => false

def sameFields : List (Field TypeExpr) → List (Field TypeExpr) → Bool
  | [], fs => fs.isEmpty
  | ⟨key, type, required⟩ :: rest, fs => match fs with
    | f :: fs => key.same f.key && type.same f.type && required == f.required && sameFields rest fs
    | [] => false

def sameMethods : List (Capability TypeExpr) → List (Capability TypeExpr) → Bool
  | [], ms => ms.isEmpty
  | ⟨name, params, explicit⟩ :: rest, ms => match ms with
    | m :: ms => name == m.name && sameParams? params m.params && explicit == m.explicit
        && sameMethods rest ms
    | [] => false

def sameParams? : Option (Params TypeExpr) → Option (Params TypeExpr) → Bool
  | none, q => q.isNone
  | some p, q => match q with
    | some q => sameParams p q
    | none => false

def sameGroup : List (Param TypeExpr) → List (Param TypeExpr) → Bool
  | [], qs => qs.isEmpty
  | ⟨type, name⟩ :: ps, qs => match qs with
    | q :: qs => type.same q.type && name == q.name && sameGroup ps qs
    | [] => false

def sameParam? : Option (Param TypeExpr) → Option (Param TypeExpr) → Bool
  | none, q => q.isNone
  | some ⟨type, name⟩, q => match q with
    | some q => type.same q.type && name == q.name
    | none => false

def sameKeywords : List (String × Param TypeExpr) → List (String × Param TypeExpr) → Bool
  | [], qs => qs.isEmpty
  | (key, ⟨type, name⟩) :: ps, qs => match qs with
    | q :: qs => key == q.1 && type.same q.2.type && name == q.2.name && sameKeywords ps qs
    | [] => false

def sameParams : Params TypeExpr → Params TypeExpr → Bool
  | ⟨req, opt, rest, trailing, reqKeys, optKeys, restKeys⟩, q =>
    sameGroup req q.required && sameGroup opt q.optional && sameParam? rest q.rest
      && sameGroup trailing q.trailing && sameKeywords reqKeys q.requiredKeywords
      && sameKeywords optKeys q.optionalKeywords && sameParam? restKeys q.restKeywords

def sameBlock : Option (Block TypeExpr) → Option (Block TypeExpr) → Bool
  | none, b => b.isNone
  | some ⟨params, result, required⟩, b => match b with
    | some b => sameParams params b.params && result.same b.result && required == b.required
    | none => false

end

end TypeExpr

end Conformance
