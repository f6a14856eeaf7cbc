import Conformance.TypeExpr

/-!
# Class names in a type

The names of classes and singletons that have to mean something before a signature is used, in the
order they are looked up.  A reference to an alias is left alone, its arguments included.
-/

namespace Conformance

namespace TypeExpr

mutual

def classNames (isAlias : String → Bool) : TypeExpr → List String
  | classRef name args => if isAlias name then [] else name :: classNamesAll isAlias args
  | singleton name => [name]
  | union ts => classNamesAll isAlias ts
  | intersection ts => classNamesAll isAlias ts
  | tuple ts => classNamesAll isAlias ts
  | record fields extra => classNamesFields isAlias fields ++ classNamesOption isAlias extra
  | optional inner => inner.classNames isAlias
  | proc params result block =>
    classNamesParams isAlias params ++ result.classNames isAlias ++ classNamesBlock isAlias block
  | _ => []

def classNamesAll (isAlias : String → Bool) : List TypeExpr → List String
  | [] => []
  | t :: ts => t.classNames isAlias ++ classNamesAll isAlias ts

def classNamesFields (isAlias : String → Bool) : List (Field TypeExpr) → List String
  | [] => []
  | ⟨_, type, _⟩ :: fs => type.classNames isAlias ++ classNamesFields isAlias fs

def classNamesOption (isAlias : String → Bool) : Option TypeExpr → List String
  | none => []
  | some t => t.classNames isAlias

def classNamesGroup (isAlias : String → Bool) : List (Param TypeExpr) → List String
  | [] => []
  | ⟨type, _⟩ :: ps => type.classNames isAlias ++ classNamesGroup isAlias ps

def classNamesParam? (isAlias : String → Bool) : Option (Param TypeExpr) → List String
  | none => []
  | some ⟨type, _⟩ => type.classNames isAlias

def classNamesKeywords (isAlias : String → Bool) : List (String × Param TypeExpr) → List String
  | [] => []
  | (_, ⟨type, _⟩) :: ps => type.classNames isAlias ++ classNamesKeywords isAlias ps

/-- The class names in a parameter list: positional, keywords, then the two rests. -/
def classNamesParams (isAlias : String → Bool) : Params TypeExpr → List String
  | ⟨req, opt, rest, trailing, reqKeys, optKeys, restKeys⟩ =>
    classNamesGroup isAlias req ++ classNamesGroup isAlias opt ++ classNamesGroup isAlias trailing
      ++ classNamesKeywords isAlias reqKeys ++ classNamesKeywords isAlias optKeys
      ++ classNamesParam? isAlias rest ++ classNamesParam? isAlias restKeys

def classNamesBlock (isAlias : String → Bool) : Option (Block TypeExpr) → List String
  | none => []
  | some ⟨params, result, _⟩ => classNamesParams isAlias params ++ result.classNames isAlias

end

end TypeExpr

namespace Signature

/-- The class names in a signature: parameters, block, then result. -/
def classNames (isAlias : String → Bool) (s : Signature) : List String :=
  TypeExpr.classNamesParams isAlias s.params ++ TypeExpr.classNamesBlock isAlias s.block
    ++ s.result.classNames isAlias

end Signature

end Conformance
