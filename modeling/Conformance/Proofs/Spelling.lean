import Mathlib
import Conformance.TypeExpr.Parser
import Conformance.Token.Lexer

/-!
# How names and tokens are spelled

A `Token` is faithful when what it was written with spells what it means: a reader may go by the lexeme of an identifier
or keyword, and an integer is never longer than the limit.

`Spelling` is a qualified name in its parts.
-/

namespace Conformance

variable {s : String} {c : Char}

/-! ## Words -/

namespace Text

/-- Is the text made of the characters of a name? -/
def isWord (s : String) : Bool :=
  match s.toList with
  | [] => false
  | c :: cs => isWordStart c && cs.all isWordPart

/-- Is the text a word that is no keyword? -/
def isName (s : String) : Bool := isWord s && (Keyword.ofText? s).isNone

theorem isWord_iff :
    isWord s = true ↔ ∃ c cs, s.toList = c :: cs ∧ isWordStart c = true ∧ ∀ d ∈ cs, isWordPart d = true := by
  unfold isWord
  cases s.toList with
  | nil => simp
  | cons c cs => simp

theorem isName_iff : isName s = true ↔ isWord s = true ∧ Keyword.ofText? s = none := by
  simp [isName]

theorem isWordPart_of_isWordStart (h : isWordStart c = true) : isWordPart c = true := by
  simp only [isWordStart, isWordPart, Char.isAlphanum, Bool.or_eq_true] at h ⊢
  tauto

theorem isWordPart_of_isWord (h : isWord s = true) (hc : c ∈ s.toList) : isWordPart c = true := by
  obtain ⟨d, ds, hs, hd, hds⟩ := isWord_iff.mp h
  rw [hs] at hc
  rcases List.mem_cons.mp hc with rfl | hc
  · exact isWordPart_of_isWordStart hd
  · exact hds c hc

/-- What stands before the first character that cannot go on a name. -/
theorem isWord_word (h : isWordStart c = true) (cs : List Char) :
    isWord (String.ofList (Token.word (c :: cs))) = true := by
  have hc := isWordPart_of_isWordStart h
  rw [isWord_iff]
  refine ⟨c, cs.takeWhile isWordPart, ?_, h, fun d hd => List.mem_takeWhile_imp hd⟩
  simp [Token.word, hc]

end Text

namespace Keyword

theorem text_of_ofText? {k : Keyword} (h : ofText? s = some k) : k.text = s := by
  simpa using List.find?_some h

theorem mem_all (k : Keyword) : k ∈ all := by
  cases k with
  | base b => cases b <;> decide
  | truth b => cases b <;> decide
  | _ => decide

theorem isWord_text (k : Keyword) : Text.isWord k.text = true := by
  have hall : ∀ k ∈ all, Text.isWord k.text = true := by decide
  exact hall k k.mem_all

theorem ofText?_text (k : Keyword) : ofText? k.text = some k := by
  have hall : ∀ k ∈ all, ofText? k.text = some k := by decide
  exact hall k k.mem_all

end Keyword

/-! ## Tokens -/

namespace Token

/-- The token was written with what spells its meaning. -/
def Faithful (t : Token) : Prop :=
  match t.kind with
  | .mark m => t.lexeme.toList = m.chars
  | .keyword k => t.lexeme = k.text
  | .identifier => Text.isName t.lexeme = true
  | .integer n => n.natAbs < 10 ^ Text.digitLimit
  | _ => True

end Token

namespace Text

theorem digitValue?_le {d : Nat} (h : digitValue? c = some d) : d ≤ 9 := by
  unfold digitValue? at h
  split at h
  · split at h
    · rename_i hdigit
      have hle : 48 ≤ c.toNat ∧ c.toNat ≤ 57 := Char.isDigit_iff_toNat.mp hdigit
      cases h
      omega
    · cases h
  · obtain ⟨z, hz, rfl⟩ := Option.map_eq_some_iff.mp h
    have := Array.find?_some hz
    simp only [Bool.and_eq_true, decide_eq_true_eq] at this
    omega

theorem readDigits_lt (cs : List Char) : readDigits cs < 10 ^ cs.length := by
  have hfold : ∀ n, cs.foldl (fun n c => 10 * n + (digitValue? c).getD 0) n < (n + 1) * 10 ^ cs.length := by
    induction cs with
    | nil => simp
    | cons c cs ih =>
      intro n
      have hd : (digitValue? c).getD 0 ≤ 9 := by
        cases hv : digitValue? c with
        | none => simp
        | some d => exact digitValue?_le hv
      calc (c :: cs).foldl (fun n c => 10 * n + (digitValue? c).getD 0) n
          < (10 * n + (digitValue? c).getD 0 + 1) * 10 ^ cs.length := ih _
        _ ≤ (10 * (n + 1)) * 10 ^ cs.length := Nat.mul_le_mul_right _ (by omega)
        _ = (n + 1) * 10 ^ (c :: cs).length := by rw [List.length_cons, Nat.pow_succ]; ring
  simpa [readDigits] using hfold 0

end Text

namespace Token

theorem integerAt?_some {cs : List Char} {l : Lexeme} (h : integerAt? cs = some l) :
    ∃ (minus : Bool) (digits rest : List Char), cs = (if minus then ['-'] else []) ++ digits ++ rest ∧
      digits ≠ [] ∧ (∀ c ∈ digits, Text.isDigit c = true) ∧
      l = ⟨.integer (if minus then -(Text.readDigits digits : Int) else Text.readDigits digits),
        (if minus then 1 else 0) + digits.length⟩ := by
  unfold integerAt? at h
  split at h
  rename_i minus rest hsign
  have hcs : cs = (if minus then ['-'] else []) ++ rest := by
    split at hsign <;> cases hsign <;> rfl
  dsimp only at h
  by_cases hnone : (rest.takeWhile Text.isDigit).isEmpty = true
  · rw [if_pos hnone] at h
    cases h
  · rw [if_neg hnone] at h
    cases h
    refine ⟨minus, rest.takeWhile Text.isDigit, rest.dropWhile Text.isDigit, ?_, ?_, ?_, rfl⟩
    · rw [List.append_assoc, List.takeWhile_append_dropWhile]
      exact hcs
    · exact fun hempty => hnone (List.isEmpty_iff.mpr hempty)
    · exact fun c hc => List.mem_takeWhile_imp hc

end Token

/-! ## Qualified names -/

/-- A qualified name in its parts: whether `::` stands before it, its first part, and the further parts, each
with the mark before it. -/
structure Spelling where
  rooted : Bool
  first : String
  parts : List (Mark × String)

namespace Spelling

/-- The marks between parts. -/
def isLink (m : Mark) : Bool := m == .colonColon || m == .dot

/-- All parts are names, and the marks between them are those of a qualified name. -/
def Valid (sp : Spelling) : Prop :=
  Text.isName sp.first = true ∧ ∀ p ∈ sp.parts, isLink p.1 = true ∧ Text.isName p.2 = true

/-- A qualified name with a further part. -/
def extend (q : Parser.QualifiedName) (p : Mark × String) : Parser.QualifiedName :=
  { q with bare := q.bare ++ String.ofList p.1.chars ++ p.2, last := p.2 }

/-- The qualified name that is spelled so. -/
def qualified (sp : Spelling) : Parser.QualifiedName :=
  sp.parts.foldl extend ⟨sp.first, sp.rooted, sp.first⟩

end Spelling

end Conformance
