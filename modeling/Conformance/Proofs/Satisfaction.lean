import Conformance.Overload
import Conformance.Proofs.Growth
import Conformance.Proofs.Inspection

/-!
# Satisfying a type under fixed bindings

`Context.Sat` says what it means that a value has a type when the classes that the type variables stand for are
settled.  Nothing is bound or looked at in any order here: a type variable is satisfied by the instances of its
classes, a union by what satisfies one of its alternatives, a collection by what its elements satisfy.  The state
of the program only tells what is in the cells.

More classes for a type variable satisfy no fewer values (`Sat.mono`).
-/

namespace Conformance

namespace Bindings

/-- The second bindings have all that the first have, and may have more. -/
abbrev Extends (b b' : Bindings) : Prop := Grows (fun _ => True) (fun _ => True) b b'

end Bindings

namespace Context

/-! ## Types that bind nothing -/

/-- Does the value have a base type? -/
def holdsBase (ctx : Context) (kind : Base) (v : Value) : Bool :=
  match kind with
  | .top | .void | .boolish => true
  | .bot => false
  | .bool => ctx.isInstance v (.builtin "bool")
  | .nil => v.isNull
  | .selfType | .instanceType | .classType => ctx.receiver.all fun r => ctx.matchesReceiver r v kind

/-- Is the value the module that is asked for, or the class or a subclass of it? -/
def isSingletonOf (ctx : Context) (target : Target) (v : Value) : Bool :=
  match target with
  | .ofModule home => v.equal (.moduleObject home)
  | .ofClass c => ctx.isSubclassObject v c

/-- Does the value have a method that a capability asks for, one that it does not just inherit, if so asked, and
that takes the arguments? -/
def offers (ctx : Context) (w : World) (v : Value) (c : Capability TypeExpr) : Bool :=
  let p := ctx.program
  match ((p.capability? v c.name).map (·.resolved w)).filter p.canCall with
  | none => false
  | some found =>
    !(c.explicit && p.isInherited v c.name)
      && c.params.all fun params => Program.fits (p.attributeFormals? found) params

/-- Can the value be called with the arguments of a parameter list? -/
def holdsProc (ctx : Context) (params : Params TypeExpr) (v : Value) : Bool :=
  ctx.program.isCallable v && Program.fits (ctx.program.formals? v) params

/-- Is nothing to be asked of the members of the value?  So it is with text, with one-shot iterators, and with
what has no elements. -/
def isNominal (ctx : Context) (v : Value) : Bool :=
  match v with
  | .str _ | .bytes .bytes _ | .bytes .bytearray _ => true
  | v => !(ctx.isContainer v "Iterable" && !ctx.isContainer v "Iterator")

/-- Does a field of a record declare the key? -/
def declaresNow (ctx : Context) (w : World) (fields : List (Field TypeExpr)) (key : Value) : Bool :=
  (ctx.program.placeNow? w (fields.map fun f => Value.ofKey f.key) key).isSome

/-! ## The relation -/

/-- The value has the type, where the bindings say what the type variables stand for. -/
inductive Sat (ctx : Context) (w : World) (B : Bindings) : Value → TypeExpr → Prop
  | double {v : Value} {t : TypeExpr} (h : ctx.isAmong (w.resolve v) ctx.doubles = .ok true) : Sat ctx w B v t
  | untyped {v : Value} : Sat ctx w B v .untyped
  | base {v : Value} {kind : Base} (h : ctx.holdsBase kind (w.resolve v) = true) : Sat ctx w B v (.base kind)
  | expansion {v : Value} {name : String} {args : List TypeExpr} {t : TypeExpr}
      (halias : ctx.registry.isAlias name = true) (ht : ctx.registry.expansionOf name = .ok t)
      (h : Sat ctx w B v t) : Sat ctx w B v (.classRef name args)
  | named {v : Value} {name home : String} {args : List TypeExpr} (halias : ctx.registry.isAlias name = false)
      (htarget : ctx.registry.classOf name = .ok (.ofModule home))
      (h : (w.resolve v).equal (.moduleObject home) = true) : Sat ctx w B v (.classRef name args)
  | nominal {v : Value} {name : String} {c : ClassId} {args : List TypeExpr}
      (halias : ctx.registry.isAlias name = false) (htarget : ctx.registry.classOf name = .ok (.ofClass c))
      (h : ctx.isInstance (w.resolve v) c = true) (hargs : args = [] ∨ ctx.isNominal (w.resolve v) = true) :
      Sat ctx w B v (.classRef name args)
  | entries {v : Value} {name : String} {c : ClassId} {first second : TypeExpr} {others : List TypeExpr}
      {kind : MappingKind} {entries : List (Value × Value)} (halias : ctx.registry.isAlias name = false)
      (htarget : ctx.registry.classOf name = .ok (.ofClass c)) (h : ctx.isInstance (w.resolve v) c = true)
      (hmapping : ctx.isContainer (w.resolve v) "Mapping" = true) (hv : w.resolve v = .mapping kind entries)
      (hkeys : ∀ e ∈ entries, Sat ctx w B e.1 first)
      (hpresent : ∀ e ∈ entries, (ctx.program.entryNow? w entries e.1).isSome = true)
      (hvalues : ∀ e ∈ entries, ∀ x, ctx.program.entryNow? w entries e.1 = some x → Sat ctx w B x second) :
      Sat ctx w B v (.classRef name (first :: second :: others))
  | bounds {v : Value} {name : String} {c : ClassId} {first : TypeExpr} {others : List TypeExpr}
      {start stop step : Int} (halias : ctx.registry.isAlias name = false)
      (htarget : ctx.registry.classOf name = .ok (.ofClass c)) (h : ctx.isInstance (w.resolve v) c = true)
      (hv : w.resolve v = .range start stop step) (hstart : Sat ctx w B (.int start) first)
      (hstop : Sat ctx w B (.int stop) first) : Sat ctx w B v (.classRef name (first :: others))
  | elements {v : Value} {name : String} {c : ClassId} {first : TypeExpr} {others : List TypeExpr}
      {items : List Value} (halias : ctx.registry.isAlias name = false)
      (htarget : ctx.registry.classOf name = .ok (.ofClass c)) (h : ctx.isInstance (w.resolve v) c = true)
      (hnominal : ctx.isNominal (w.resolve v) = false) (hrange : ∀ start stop step, w.resolve v ≠ .range start stop step)
      (hmapping : others = [] ∨ ctx.isContainer (w.resolve v) "Mapping" = false)
      (hitems : (w.resolve v).items? = some items) (helements : ∀ x ∈ items, Sat ctx w B x first) :
      Sat ctx w B v (.classRef name (first :: others))
  | singleton {v : Value} {name : String} {target : Target} (htarget : ctx.registry.classOf name = .ok target)
      (h : ctx.isSingletonOf target (w.resolve v) = true) : Sat ctx w B v (.singleton name)
  | interface {v : Value} {name : String} {methods : List (Capability TypeExpr)}
      (h : ∀ c ∈ methods, ctx.offers w (w.resolve v) c = true) : Sat ctx w B v (.interface name methods)
  | union {v : Value} {ts : List TypeExpr} {t : TypeExpr} (ht : t ∈ ts) (h : Sat ctx w B v t) :
      Sat ctx w B v (.union ts)
  | intersection {v : Value} {ts : List TypeExpr} (h : ∀ t ∈ ts, Sat ctx w B v t) : Sat ctx w B v (.intersection ts)
  | tuple {v : Value} {ts : List TypeExpr} {kind : SequenceKind} {items : List Value}
      (h : ctx.isInstanceOfAny (w.resolve v) [.builtin "tuple", .builtin "list"] = true)
      (hv : w.resolve v = .sequence kind items) (hlength : items.length = ts.length)
      (helements : ∀ e ∈ items.zip ts, Sat ctx w B e.1 e.2) : Sat ctx w B v (.tuple ts)
  | record {v : Value} {fields : List (Field TypeExpr)} {extra : Option TypeExpr} {kind : MappingKind}
      {entries : List (Value × Value)} (hmapping : ctx.isContainer (w.resolve v) "Mapping" = true)
      (hv : w.resolve v = .mapping kind entries)
      (hrequired : ∀ f ∈ fields, f.required = true →
        (ctx.program.entryNow? w entries (Value.ofKey f.key)).isSome = true)
      (hfields : ∀ f ∈ fields, ∀ x, ctx.program.entryNow? w entries (Value.ofKey f.key) = some x →
        Sat ctx w B x f.type)
      (hclosed : extra = none → ∀ e ∈ entries, ctx.declaresNow w fields e.1 = true)
      (hpresent : ∀ e ∈ entries, ctx.declaresNow w fields e.1 = false →
        (ctx.program.entryNow? w entries e.1).isSome = true)
      (hextra : ∀ t, extra = some t → ∀ e ∈ entries, ctx.declaresNow w fields e.1 = false →
        ∀ x, ctx.program.entryNow? w entries e.1 = some x → Sat ctx w B x t) :
      Sat ctx w B v (.record fields extra)
  | literal {v : Value} {l : Literal} (h : isLiteral (w.resolve v) l = true) : Sat ctx w B v (.literal l)
  | typeVar {v : Value} {name : String} {binding : Binding} (hbound : B.get? name = some binding)
      (h : ctx.isInstanceOfAny (w.resolve v) binding.types = true) : Sat ctx w B v (.typeVar name)
  | absent {v : Value} {t : TypeExpr} (h : (w.resolve v).isNull = true) : Sat ctx w B v (.optional t)
  | present {v : Value} {t : TypeExpr} (h : Sat ctx w B v t) : Sat ctx w B v (.optional t)
  | proc {v : Value} {params : Params TypeExpr} {result : TypeExpr} {block : Option (Block TypeExpr)}
      (h : ctx.holdsProc params (w.resolve v) = true) : Sat ctx w B v (.proc params result block)

variable {ctx : Context} {w : World} {b b' : Bindings} {v : Value} {t : TypeExpr}

theorem isInstanceOfAny_mono {cs ds : List ClassId} (hsub : cs ⊆ ds) (h : ctx.isInstanceOfAny v cs = true) :
    ctx.isInstanceOfAny v ds = true := by
  obtain ⟨c, hc, hinstance⟩ := List.any_eq_true.1 h
  exact List.any_eq_true.2 ⟨c, hsub hc, hinstance⟩

/-- What satisfies a type keeps to it when more is bound. -/
theorem Sat.mono (h : ctx.Sat w b v t) (hb : b.Extends b') : ctx.Sat w b' v t := by
  induction h with
  | double h => exact .double h
  | untyped => exact .untyped
  | base h => exact .base h
  | expansion halias ht _ ih => exact .expansion halias ht ih
  | named halias htarget h => exact .named halias htarget h
  | nominal halias htarget h hargs => exact .nominal halias htarget h hargs
  | entries halias htarget h hmapping hv _ hpresent _ ihkeys ihvalues =>
    exact .entries halias htarget h hmapping hv ihkeys hpresent ihvalues
  | bounds halias htarget h hv _ _ ihstart ihstop => exact .bounds halias htarget h hv ihstart ihstop
  | elements halias htarget h hnominal hrange hmapping hitems _ ih =>
    exact .elements halias htarget h hnominal hrange hmapping hitems ih
  | singleton htarget h => exact .singleton htarget h
  | interface h => exact .interface h
  | union ht _ ih => exact .union ht ih
  | intersection _ ih => exact .intersection ih
  | tuple h hv hlength _ ih => exact .tuple h hv hlength ih
  | record hmapping hv hrequired _ hclosed hpresent _ ihfields ihextra =>
    exact .record hmapping hv hrequired ihfields hclosed hpresent ihextra
  | literal h => exact .literal h
  | typeVar hbound h =>
    obtain ⟨new, hnew, hgrown⟩ := hb.kept _ _ hbound
    exact .typeVar hnew (isInstanceOfAny_mono hgrown.types.subset h)
  | absent h => exact .absent h
  | present _ ih => exact .present ih
  | proc h => exact .proc h

/-- Only what a value is now counts, and not by which cell it is known. -/
theorem Sat.of_resolve_eq {u : Value} (h : ctx.Sat w b u t) (huv : w.resolve u = w.resolve v) :
    ctx.Sat w b v t := by
  induction h with
  | double h => exact .double (huv ▸ h)
  | untyped => exact .untyped
  | base h => exact .base (huv ▸ h)
  | expansion halias ht _ ih => exact .expansion halias ht (ih huv)
  | named halias htarget h => exact .named halias htarget (huv ▸ h)
  | nominal halias htarget h hargs => exact .nominal halias htarget (huv ▸ h) (huv ▸ hargs)
  | entries halias htarget h hmapping hv hkeys hpresent hvalues =>
    exact .entries halias htarget (huv ▸ h) (huv ▸ hmapping) (huv ▸ hv) hkeys hpresent hvalues
  | bounds halias htarget h hv hstart hstop =>
    exact .bounds halias htarget (huv ▸ h) (huv ▸ hv) hstart hstop
  | elements halias htarget h hnominal hrange hmapping hitems helements =>
    exact .elements halias htarget (huv ▸ h) (huv ▸ hnominal) (huv ▸ hrange) (huv ▸ hmapping) (huv ▸ hitems)
      helements
  | singleton htarget h => exact .singleton htarget (huv ▸ h)
  | interface h => exact .interface (huv ▸ h)
  | union ht _ ih => exact .union ht (ih huv)
  | intersection _ ih => exact .intersection fun t ht => ih t ht huv
  | tuple h hv hlength helements => exact .tuple (huv ▸ h) (huv ▸ hv) hlength helements
  | record hmapping hv hrequired hfields hclosed hpresent hextra =>
    exact .record (huv ▸ hmapping) (huv ▸ hv) hrequired hfields hclosed hpresent hextra
  | literal h => exact .literal (huv ▸ h)
  | typeVar hbound h => exact .typeVar hbound (huv ▸ h)
  | absent h => exact .absent (huv ▸ h)
  | present _ ih => exact .present (ih huv)
  | proc h => exact .proc (huv ▸ h)

end Context

end Conformance
