import Mathlib
import Conformance.Proofs.Lookups

/-!
# What a text mentions

Which interfaces are looked up while a text is read does not depend on what is found for them: types are put into the
tree and not looked at again.  Where a text can be read with some lookup, any other lookup goes the same way through it
(`Follows`).  It reads the text if it finds all interfaces that the text mentions, and fails as it does for one of them
otherwise (`readSignature_follows`).
-/

namespace Conformance

namespace Parser

variable {ε α β : Type} {resolve : String → Except ε (List (Capability TypeExpr))}

/-! ## Readers that go the same way -/

/-- Where the first reader reads something, the second one goes the same way.  It gives something of the same view if
all interfaces that are looked up are found, and stops at one of them otherwise. -/
def Follows (resolve : String → Except ε (List (Capability TypeExpr))) (α : Type) (V : α → α → Prop)
    (p p' : Parser ε α) : Prop :=
  ∀ c a c₁, p.run c = .ok (a, c₁) → ∃ names, c₁.mentions = c.mentions ++ names ∧
    ((∃ a', p'.run c = .ok (a', c₁) ∧ V a a' ∧ ∀ name ∈ names, ∃ ms, resolve name = .ok ms) ∨
      ∃ name ∈ names, ∃ e mentions, resolve name = .error e ∧ p'.run c = .error ⟨.lookup e, mentions⟩)

theorem Follows.bind {V : α → α → Prop} [Std.Refl V] {W : β → β → Prop} {p p' : Parser ε α} {f f' : α → Parser ε β}
    (hp : Follows resolve α V p p') (hf : ∀ a a', V a a' → Follows resolve β W (f a) (f' a')) :
    Follows resolve β W (p >>= f) (p' >>= f') := by
  intro c b c₂ h
  cases hrun : p.run c with
  | error e => cases (run_bind_of_error hrun).symm.trans h
  | ok x =>
    obtain ⟨a, c₁⟩ := x
    rw [run_bind_of_ok hrun] at h
    obtain ⟨names, hnames, hfirst⟩ := hp c a c₁ hrun
    rcases hfirst with ⟨a', hrun', hview, hfound⟩ | ⟨name, hname, e, mentions, herror, hrun'⟩
    · obtain ⟨names', hnames', hsecond⟩ := hf a a' hview c₁ b c₂ h
      refine ⟨names ++ names', by rw [hnames', hnames, List.append_assoc], ?_⟩
      rw [run_bind_of_ok hrun']
      rcases hsecond with ⟨b', hrun₂, hview', hfound'⟩ | ⟨name, hname, hstops⟩
      · exact .inl ⟨b', hrun₂, hview', fun name hname => (List.mem_append.1 hname).elim (hfound name) (hfound' name)⟩
      · exact .inr ⟨name, List.mem_append_right _ hname, hstops⟩
    · obtain ⟨names', hnames', -⟩ := hf a a (refl a) c₁ b c₂ h
      refine ⟨names ++ names', by rw [hnames', hnames, List.append_assoc], .inr ?_⟩
      exact ⟨name, List.mem_append_left _ hname, e, mentions, herror, run_bind_of_error hrun'⟩

theorem congruence_follows (resolve : String → Except ε (List (Capability TypeExpr))) :
    Congruence none (Follows resolve) := by
  refine .of_steps (fun {_ _ _ a'} hview c b c₁ h => ?_) .bind fun p hp c a c₁ h => ?_
  · cases h
    exact ⟨[], (List.append_nil _).symm, .inl ⟨a', rfl, hview, by simp⟩⟩
  · exact ⟨[], by rw [hp c a c₁ h, List.append_nil], .inl ⟨a, h, rfl, by simp⟩⟩

theorem follows_lookup {resolve₀ : String → Except ε (List (Capability TypeExpr))} (names : List String)
    (name : String) : Follows resolve _ (Kept False) (lookup ⟨names, resolve₀⟩ name) (lookup ⟨names, resolve⟩ name) := by
  intro c ms c₁ h
  change lookup ⟨names, resolve₀⟩ name c = _ at h
  change ∃ found, _ ∧ ((∃ ms', lookup ⟨names, resolve⟩ name c = _ ∧ _) ∨
    ∃ other ∈ found, ∃ e mentions, _ ∧ lookup ⟨names, resolve⟩ name c = _)
  unfold lookup at h ⊢
  dsimp only at h ⊢
  split at h
  · cases h
    refine ⟨[name], rfl, ?_⟩
    cases hname : resolve name with
    | ok ms' =>
      exact .inl ⟨ms', rfl, False.elim, fun other hother => ⟨ms', by rwa [List.mem_singleton.1 hother]⟩⟩
    | error e => exact .inr ⟨name, List.mem_singleton_self name, e, _, hname, rfl⟩
  · cases h

end Parser

namespace Registry

variable {resolve₀ : Resolve} {text : String}

/-! ## Texts -/

/-- A signature that can be read with some lookup can be read with any other that finds all interfaces it mentions, and
otherwise is not read for the reason that one of them is not found. -/
theorem readSignature_follows {s₀ : Signature} (h : (readSignature resolve₀ text).result = .ok s₀) (resolve : Resolve) :
    ((∃ s, (readSignature resolve text).result = .ok s) ∧
        ∀ name ∈ (readSignature resolve₀ text).mentions, ∃ ms, resolve name = .ok ms) ∨
      ∃ name ∈ (readSignature resolve₀ text).mentions, ∃ e, resolve name = .error e ∧
        (readSignature resolve text).result = .error e := by
  unfold readSignature readWith at h ⊢
  cases hstream : Token.tokenize text with
  | error e =>
    rw [hstream] at h
    cases h
  | ok stream =>
    rw [hstream] at h
    dsimp only at h ⊢
    split at h
    · rename_i hclean
      rw [if_pos hclean, if_pos hclean]
      cases hrun : (Parser.wholeSignature resolve₀ text).run ⟨stream.tokens, []⟩ with
      | error e =>
        rw [hrun] at h
        cases h
      | ok x =>
        obtain ⟨s, c⟩ := x
        have hfollows : Parser.Follows resolve _ (Parser.Kept False) (Parser.wholeSignature resolve₀ text)
            (Parser.wholeSignature resolve text) :=
          (Parser.congruence_follows resolve).wholeSignature Parser.follows_lookup text
        obtain ⟨names, hnames, hway⟩ := hfollows _ s c hrun
        rw [List.nil_append] at hnames
        dsimp only
        rw [hnames]
        rcases hway with ⟨s', hrun', -, hfound⟩ | ⟨name, hname, e, mentions, herror, hrun'⟩
        · rw [hrun']
          exact .inl ⟨⟨s', rfl⟩, hfound⟩
        · rw [hrun']
          exact .inr ⟨name, hname, e, herror, rfl⟩
    · cases h

end Registry

end Conformance
