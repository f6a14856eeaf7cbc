import Mathlib
import Conformance.Proofs.Spelling
import Conformance.Proofs.TypeTree
import Conformance.Registry

/-!
# What is known of what was read

`NodeRead` says what is known of every node of a type expression that was read from a text, and `Params.Read` what is
known of every parameter list in it.  Among other things, a type variable is one of those in scope, and the two
parameters of one name that a list must not have are not there.

The readers go by the lexemes of the tokens, which spell what the tokens mean.
-/

namespace Conformance

/-! ## What is known of a tree that was read -/

/-- A number that is short enough to be written. -/
def Key.Short : Key → Prop
  | .int n => n.natAbs < 10 ^ Text.digitLimit
  | _ => True

/-- What is known of a parameter list that was read, if its types have the property `N`. -/
structure Params.Read (N : TypeExpr → Prop) (p : Params TypeExpr) : Prop where
  params : ∀ q ∈ p.list, N q.type ∧ ∀ name ∈ q.name, Text.isWord name = true
  keywords : ∀ kq ∈ p.keywords, Text.isWord kq.1 = true
  distinct : (p.keywords.map (·.1)).Nodup
  trailing : p.trailing ≠ [] → p.optional ≠ [] ∨ p.rest.isSome = true

namespace Params.Read

variable {N N' : TypeExpr → Prop} {p : Params TypeExpr}

theorem mono (hp : p.Read N) (h : ∀ t, N t → N' t) : p.Read N' :=
  { hp with params := fun q hq => ⟨h _ (hp.params q hq).1, (hp.params q hq).2⟩ }

theorem types (hp : p.Read N) {t : TypeExpr} (ht : t ∈ p.types) : N t := by
  obtain ⟨q, hq, rfl⟩ := List.mem_map.mp ht
  exact (hp.params q hq).1

theorem of_types (hp : p.Read N) (h : ∀ t ∈ p.types, N' t) : p.Read N' :=
  { hp with params := fun q hq => ⟨h _ (List.mem_map_of_mem hq), (hp.params q hq).2⟩ }

end Params.Read

namespace TypeExpr

variable {ε : Type}

/-- What is known of a node that was read, what stands in it apart. -/
def NodeRead (scope : Parser.Scope ε) : TypeExpr → Prop
  | classRef name _ => ∃ sp : Spelling, sp.Valid ∧ name = sp.qualified.text ∧
      sp.qualified.bare ∉ scope.typeParams ∧ sp.qualified.last.startsWith "_" = false
  | singleton name => ∃ sp : Spelling, sp.Valid ∧ name = sp.qualified.text
  | interface name methods => ∃ sp : Spelling, sp.Valid ∧ name = sp.qualified.bare ∧
      sp.qualified.bare ∉ scope.typeParams ∧ sp.qualified.last.startsWith "_" = true ∧
      scope.resolve name = .ok methods
  | typeVar name => ∃ sp : Spelling, sp.Valid ∧ name = sp.qualified.bare ∧ name ∈ scope.typeParams
  | union ts | intersection ts => 2 ≤ ts.length
  | record fields _ => (fields.Pairwise fun f g => f.key.same g.key = false) ∧ ∀ f ∈ fields, f.key.Short
  | literal l => l.value.Short
  | proc params _ block => params.Read (fun _ => True) ∧ ∀ b ∈ block, b.params.Read fun _ => True
  | _ => True

/-- All that is known of a type expression that was read. -/
abbrev Read (scope : Parser.Scope ε) (t : TypeExpr) : Prop := t.Everywhere (NodeRead scope)

end TypeExpr

/-- All that is known of a signature that was read. -/
structure Signature.Read {ε : Type} (resolve : String → Except ε (List (Capability TypeExpr))) (s : Signature) :
    Prop where
  names : ∀ n ∈ s.typeParams, Text.isName n = true
  distinct : s.typeParams.Nodup
  params : s.params.Read (TypeExpr.Read ⟨s.typeParams, resolve⟩)
  block : ∀ b ∈ s.block, b.params.Read (TypeExpr.Read ⟨s.typeParams, resolve⟩) ∧ b.result.Read ⟨s.typeParams, resolve⟩
  result : s.result.Read ⟨s.typeParams, resolve⟩

theorem Signature.Read.types {ε : Type} {resolve : String → Except ε (List (Capability TypeExpr))} {s : Signature}
    (hs : s.Read resolve) {t : TypeExpr} (ht : t ∈ s.types) : t.Read ⟨s.typeParams, resolve⟩ := by
  rcases List.mem_append.1 ht with ht | ht
  · rcases List.mem_append.1 ht with ht | ht
    · exact hs.params.types ht
    · obtain ⟨b, hb, ht⟩ : ∃ b ∈ s.block, t ∈ b.types := by
        cases hblock : s.block with
        | none =>
          rw [hblock] at ht
          cases ht
        | some b =>
          rw [hblock] at ht
          exact ⟨b, rfl, ht⟩
      rcases List.mem_append.1 ht with ht | ht
      · exact (hs.block b hb).1.types ht
      · rw [List.mem_singleton.1 ht]
        exact (hs.block b hb).2
  · rw [List.mem_singleton.1 ht]
    exact hs.result

/-! ## What tokens say -/

namespace Token.Faithful

variable {t : Token}

theorem isWord_lexeme (h : t.Faithful) (hword : t.isWord = true) : Text.isWord t.lexeme = true := by
  unfold Token.Faithful at h
  unfold Token.isWord at hword
  split at hword
  · rename_i hk
    rw [hk] at h
    exact (Text.isName_iff.mp h).1
  · rename_i k hk
    rw [hk] at h
    rw [h]
    exact k.isWord_text
  · cases hword

theorem isName_lexeme (h : t.Faithful) (hk : t.kind = .identifier) : Text.isName t.lexeme = true := by
  rwa [Token.Faithful, hk] at h

theorem lexeme_eq (h : t.Faithful) {m : Mark} (hk : t.kind = .mark m) : t.lexeme = String.ofList m.chars := by
  rw [Token.Faithful, hk] at h
  rw [← h, String.ofList_toList]

theorem short_of_literal? {l : Literal} (h : t.Faithful) (hl : Parser.literal? t.kind = some l) : l.value.Short := by
  unfold Parser.literal? at hl
  split at hl <;> cases hl
  · rename_i hk
    rwa [Token.Faithful, hk] at h
  all_goals trivial

end Token.Faithful

namespace Parser.Cursor

variable {c : Cursor}

theorem kind_eq : c.kind = c.token.kind := by
  cases h : c.tokens <;> simp [kind, token, h]

theorem next_eq (h : c.kind ≠ .endOfText) : c.next = { c with tokens := c.tokens.tail } := by
  have hne : (c.kind == .endOfText) = false := by simpa using h
  simp only [next, hne, Bool.false_eq_true, if_false]

theorem isWord_of_atKeyword (h : c.atKeyword 0 = true) : c.token.isWord = true := by
  simp only [atKeyword, Bool.and_eq_true] at h
  cases ht : c.tokens with
  | nil => simp [ht] at h
  | cons t ts => simpa [token, ht] using h.1

end Parser.Cursor

end Conformance
