import Mathlib
import Conformance.Proofs.Checking
import Conformance.Proofs.Pairing

/-!
# The block among the arguments

A call has two views of its arguments.  The method gets all of them, with a traced block in the place of the marker, and
signatures are checked against those that are left when the marker is taken out.  `Invocation.Extracts` says how the two
belong together: nothing is marked, or one positional argument is, or the value of one keyword.

Main statement: `Invocation.block_extraction`.
-/

namespace Conformance

namespace Invocation

/-! ## Rows with a marker -/

section Rows

variable {α : Type} {m : α → Option Value} {pass : α → α} {xs : List α}

/-- A row without a marker is left as it is. -/
theorem row_unmarked (hpass : ∀ x, m x = none → pass x = x) (h : ∀ x ∈ xs, m x = none) :
    xs.filterMap m = [] ∧ (xs.filter fun x => (m x).isNone) = xs ∧ xs.map pass = xs := by
  refine ⟨List.filterMap_eq_nil_iff.2 h, List.filter_eq_self.2 fun x hx => ?_, ?_⟩
  · rw [h x hx]
    rfl
  · rw [List.map_congr_left fun x hx => hpass x (h x hx), List.map_id']

/-- In a row with one marker, that one is taken out and passed on. -/
theorem row_marked {before after : List α} {x : α} {v : Value} (hpass : ∀ x, m x = none → pass x = x)
    (hbefore : ∀ y ∈ before, m y = none) (hx : m x = some v) (hafter : ∀ y ∈ after, m y = none) :
    (before ++ x :: after).filterMap m = [v] ∧
      ((before ++ x :: after).filter fun x => (m x).isNone) = before ++ after ∧
      (before ++ x :: after).map pass = before ++ pass x :: after := by
  obtain ⟨hmarks, hplain, hpassed⟩ := row_unmarked hpass hbefore
  obtain ⟨hmarks', hplain', hpassed'⟩ := row_unmarked hpass hafter
  simp [hx, hmarks, hmarks', hplain, hplain', hpassed, hpassed']

theorem unmarked_of_countP (h : xs.countP (fun x => (m x).isSome) = 0) : ∀ x ∈ xs, m x = none := by
  simpa [List.countP_eq_zero] using h

/-- The one marker of a row. -/
theorem exists_marked (h : xs.countP (fun x => (m x).isSome) = 1) : ∃ before x after v, xs = before ++ x :: after ∧
    (∀ y ∈ before, m y = none) ∧ m x = some v ∧ ∀ y ∈ after, m y = none := by
  obtain ⟨x, hx, hmark⟩ := List.countP_pos_iff.1 (h ▸ Nat.one_pos)
  obtain ⟨v, hv⟩ := Option.isSome_iff_exists.1 hmark
  obtain ⟨before, after, rfl⟩ := List.append_of_mem hx
  rw [List.countP_append, List.countP_cons_of_pos (p := fun x => (m x).isSome) hmark] at h
  exact ⟨before, x, after, v, rfl, unmarked_of_countP (by omega), hv, unmarked_of_countP (by omega)⟩

end Rows

/-! ## Both views -/

/-- The number of markers among positional arguments and the values of keywords. -/
def markers (args : List Value) (keywords : List (String × Value)) : Nat :=
  args.countP (fun v => v.marked?.isSome) + keywords.countP fun kv => kv.2.marked?.isSome

/-- The call that is made of a receiver, a method and arguments of which at most one is marked as the block. -/
inductive Extracts (receiver : Value) (method : String) :
    List Value → List (String × Value) → Invocation → Prop
  | unmarked {args : List Value} {keywords : List (String × Value)} (hargs : ∀ v ∈ args, v.marked? = none)
      (hkeywords : ∀ kv ∈ keywords, kv.2.marked? = none) :
      Extracts receiver method args keywords
        { receiver, method, args, keywords, callArgs := args, callKeywords := keywords }
  | positional {before after : List Value} {f : Value} {keywords : List (String × Value)}
      (hbefore : ∀ v ∈ before, v.marked? = none) (hafter : ∀ v ∈ after, v.marked? = none)
      (hkeywords : ∀ kv ∈ keywords, kv.2.marked? = none) :
      Extracts receiver method (before ++ .block f :: after) keywords
        { receiver, method, args := before ++ after, keywords, block := some f
          callArgs := before ++ .traced f :: after, callKeywords := keywords }
  | keyword {before after : List (String × Value)} {name : String} {f : Value} {args : List Value}
      (hargs : ∀ v ∈ args, v.marked? = none) (hbefore : ∀ kv ∈ before, kv.2.marked? = none)
      (hafter : ∀ kv ∈ after, kv.2.marked? = none) :
      Extracts receiver method args (before ++ (name, .block f) :: after)
        { receiver, method, args, keywords := before ++ after, block := some f
          callArgs := args, callKeywords := before ++ (name, .traced f) :: after }

variable {receiver : Value} {method : String} {args : List Value} {keywords : List (String × Value)} {i : Invocation}

theorem eq_block_of_marked? {v f : Value} (h : v.marked? = some f) : v = .block f := by
  cases v <;> simp_all [Value.marked?]

theorem passed_of_unmarked (v : Value) (h : v.marked? = none) : v.passed = v := by
  cases v <;> simp_all [Value.marked?, Value.passed]

theorem passed_of_unmarked_keyword (kv : String × Value) (h : kv.2.marked? = none) : (kv.1, kv.2.passed) = kv := by
  rw [passed_of_unmarked kv.2 h]

theorem prepare_of_many (h : 2 ≤ markers args keywords) : prepare receiver method args keywords = .error .manyBlocks := by
  unfold prepare
  dsimp only
  rw [if_pos]
  rw [List.length_append, List.length_filterMap_eq_countP, List.length_filterMap_eq_countP]
  exact h

/-- With at most one marker, the call is prepared. -/
theorem exists_extracts (receiver : Value) (method : String) (h : markers args keywords < 2) :
    ∃ i, prepare receiver method args keywords = .ok i ∧ Extracts receiver method args keywords i ∧
      (i.hasBlock = true ↔ markers args keywords = 1) := by
  unfold markers at h ⊢
  unfold prepare
  dsimp only
  rcases Nat.eq_zero_or_pos (args.countP fun v => v.marked?.isSome) with hargs | hargs
  · have hplain := unmarked_of_countP hargs
    obtain ⟨hmarks, hrow, hpassed⟩ := row_unmarked passed_of_unmarked hplain
    rcases Nat.eq_zero_or_pos (keywords.countP fun kv => kv.2.marked?.isSome) with hkeywords | hkeywords
    · have hplain' := unmarked_of_countP (m := fun kv : String × Value => kv.2.marked?) hkeywords
      obtain ⟨hmarks', hrow', hpassed'⟩ := row_unmarked passed_of_unmarked_keyword hplain'
      rw [hmarks, hmarks', hrow, hrow', hpassed, hpassed', hargs, hkeywords]
      exact ⟨_, rfl, .unmarked hplain hplain', by simp [hasBlock]⟩
    · have hone : keywords.countP (fun kv => kv.2.marked?.isSome) = 1 := by omega
      obtain ⟨before, ⟨name, v⟩, after, f, rfl, hbefore, hv, hafter⟩ :=
        exists_marked (m := fun kv : String × Value => kv.2.marked?) hone
      obtain rfl := eq_block_of_marked? hv
      obtain ⟨hmarks', hrow', hpassed'⟩ := row_marked passed_of_unmarked_keyword hbefore hv hafter
      rw [hmarks, hmarks', hrow, hrow', hpassed, hpassed', hargs, hone]
      exact ⟨_, rfl, .keyword hplain hbefore hafter, by simp [hasBlock]⟩
  · have hone : args.countP (fun v => v.marked?.isSome) = 1 := by omega
    have hnone : keywords.countP (fun kv => kv.2.marked?.isSome) = 0 := by omega
    have hplain' := unmarked_of_countP (m := fun kv : String × Value => kv.2.marked?) hnone
    obtain ⟨hmarks', hrow', hpassed'⟩ := row_unmarked passed_of_unmarked_keyword hplain'
    obtain ⟨before, v, after, f, rfl, hbefore, hv, hafter⟩ := exists_marked hone
    obtain rfl := eq_block_of_marked? hv
    obtain ⟨hmarks, hrow, hpassed⟩ := row_marked passed_of_unmarked hbefore hv hafter
    rw [hmarks, hmarks', hrow, hrow', hpassed, hpassed', hone, hnone]
    exact ⟨_, rfl, .positional hbefore hafter hplain', by simp [hasBlock]⟩

/-! ## What is checked and what is called -/

/-- The arguments of a call that are checked, each with its parameter and numbered without gaps. -/
theorem pairs_of_ofArguments {s : Signature} {text : String} {slots : List (Conformance.Slot TypeExpr Value)}
    (h : s.params.pair "argument" i.args i.keywords = .ok slots) :
    Check.ofArguments text s i = Check.ofSlots "" slots ∧ s.params.Pairs "argument" i.args i.keywords slots := by
  refine ⟨by rw [Check.ofArguments, h], Params.pairs_of_pair ?_ h⟩
  by_contra hfits
  obtain ⟨e, he⟩ := Params.pair_eq_error_iff.2 (Params.misfit_iff.2 (.inl hfits))
  rw [h] at he
  cases he

/-- The block is taken out of the arguments that are checked, and stays among those that the method gets.  A call cannot
be prepared exactly if two or more arguments are marked; else the two views are those of `Extracts`, and there is a block
if and only if there is a marker.  When the call is made, the method gets the arguments with the traced block, and every
signature is checked against the others, with no gap in their numbers. -/
theorem block_extraction (receiver : Value) (method : String) (args : List Value) (keywords : List (String × Value)) :
    (prepare receiver method args keywords = .error .manyBlocks ↔ 2 ≤ markers args keywords) ∧
      (markers args keywords < 2 → ∃ i, prepare receiver method args keywords = .ok i ∧
        Extracts receiver method args keywords i ∧ (i.hasBlock = true ↔ markers args keywords = 1) ∧
        ∀ (p : Program) (target : Value) (w left : World) (done : Invocation),
          (i.perform p target).run.run w = (.ok (.ok done), left) →
          (∃ callee asked outcome, (p.ask p.invoke target method).run.run w = (.ok (some callee), asked) ∧
            (p.invoke callee i.callArgs i.callKeywords).run.run { asked with blockCalls := [] } = (outcome, left) ∧
            done = { i with outcome := some outcome, blockCalls := left.blockCalls }) ∧
          ∀ (s : Signature) (text : String) (slots : List (Conformance.Slot TypeExpr Value)),
            s.params.pair "argument" i.args i.keywords = .ok slots →
              Check.ofArguments text s done = Check.ofSlots "" slots ∧
              s.params.Pairs "argument" i.args i.keywords slots) := by
  refine ⟨⟨fun h => ?_, prepare_of_many⟩, fun h => ?_⟩
  · by_contra hfew
    obtain ⟨i, hprepared, -⟩ := exists_extracts receiver method (Nat.lt_of_not_le hfew)
    rw [h] at hprepared
    cases hprepared
  · obtain ⟨i, hprepared, hextracts, hblock⟩ := exists_extracts receiver method h
    refine ⟨i, hprepared, hextracts, hblock, fun p target w left done hdone => ?_⟩
    obtain ⟨callee, asked, outcome, hasked, hcalled, rfl⟩ := called_of_perform hdone
    rw [(of_prepare hprepared).2] at hasked
    exact ⟨⟨callee, asked, outcome, hasked, hcalled, rfl⟩, fun s text slots => pairs_of_ofArguments⟩

end Invocation

end Conformance
