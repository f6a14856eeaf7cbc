import Conformance.Proofs.Parsing

/-!
# Reading what types are put together from

The rows of parameter lists, blocks and records are read back by their readers, if those of the types inside are
(`Legible`), and so are those of named types.  A parameter list is read item by item; that each item ends up in its own
group is `Params.Read.grows`, which is where the order of the groups in the printed form matters.
-/

namespace Conformance

open Face Piece

variable {q : Param TypeExpr} {m : Mark} {acc p : Params TypeExpr} {N : TypeExpr → Prop}

/-! ## Parameter lists -/

namespace Parser

variable {ε : Type} {nested : Parser ε TypeExpr} {spell : TypeExpr → List Piece}

theorem reads_param (hq : Legible nested (spell q.type) q.type) (hm : m ∉ typeMarks) (rest : List Face) :
    Reads (param nested) (faces (q.pieces spell) ++ ofMark m :: rest) q (ofMark m :: rest) := by
  obtain ⟨type, name⟩ := q
  cases name with
  | none =>
    rw [Param.pieces, Option.elim_none, List.append_nil]
    refine (hq.reads _ (after_mark hm rest)).bind (reads_get_bind fun c hc => .ite_neg ?_ (reads_pure _ _))
    rw [Cursor.isWord_token hc]
    exact Bool.false_ne_true
  | some name =>
    have hcolon : m ≠ .colon := by
      rintro rfl
      exact hm (by decide)
    have hname : After typeMarks (ofWord name :: ofMark m :: rest) :=
      after_word name fun h => hcolon (TokenKind.mark.inj h)
    rw [Param.pieces, Option.elim_some, faces_append, faces_blank, faces_word, faces_nil,
      List.append_assoc]
    refine (hq.reads _ hname).bind (reads_get_bind fun c hc => .ite_pos ?_ ?_)
    · rw [Cursor.isWord_token hc, isWord_ofWord]
    · refine reads_advance_bind (wordKind_ne_end name) fun t ht => ?_
      have hlexeme : t.lexeme = name := congrArg Face.lexeme ht
      rw [hlexeme]
      exact reads_pure _ _

theorem reads_keywordParam {name : String} (hq : Legible nested (spell q.type) q.type)
    (hnew : ∀ kq ∈ acc.keywords, kq.1 ≠ name) (hm : m ∉ typeMarks) (rest : List Face) :
    Reads (keywordParam nested acc) (faces (label name ++ q.pieces spell) ++ ofMark m :: rest) (name, q)
      (ofMark m :: rest) := by
  rw [faces_label]
  refine reads_advance_bind (wordKind_ne_end name) fun t ht => ?_
  have hlexeme : t.lexeme = name := congrArg Face.lexeme ht
  rw [hlexeme]
  refine (reads_expect .colon _ _).bind ((reads_param hq hm rest).bind (.ite_neg ?_ (reads_pure _ _)))
  rw [List.any_eq_true]
  rintro ⟨kq, hkq, heq⟩
  exact hnew kq hkq (beq_iff_eq.1 heq)

end Parser

namespace Item

variable {τ : Type}

/-- The groups with a further parameter. -/
def add (acc : Params τ) : Item τ → Params τ
  | required q => { acc with required := acc.required ++ [q] }
  | optional q => { acc with optional := acc.optional ++ [q] }
  | rest q => { acc with rest := some q }
  | trailing q => { acc with trailing := acc.trailing ++ [q] }
  | requiredKeyword name q => { acc with requiredKeywords := acc.requiredKeywords ++ [(name, q)] }
  | optionalKeyword name q => { acc with optionalKeywords := acc.optionalKeywords ++ [(name, q)] }
  | restKeywords q => { acc with restKeywords := some q }

/-- The parameter may follow the groups, and belongs to the group that its form says. -/
def Allowed (acc : Params τ) (i : Item τ) : Prop :=
  acc.restKeywords = none ∧ (∀ k ∈ i.keyword?, ∀ kq ∈ acc.keywords, kq.1 ≠ k) ∧
    match i with
    | required _ => acc.keywords = [] ∧ acc.rest = none ∧ acc.optional = []
    | optional _ => acc.keywords = [] ∧ acc.rest = none ∧ acc.trailing = []
    | rest _ => acc.keywords = [] ∧ acc.rest = none
    | trailing _ => acc.keywords = [] ∧ (acc.rest.isSome = true ∨ acc.optional ≠ [])
    | requiredKeyword _ _ | optionalKeyword _ _ | restKeywords _ => True

end Item

namespace Parser

variable {ε : Type} {nested : Parser ε TypeExpr} {spell : TypeExpr → List Piece}

/-- What is read of a parameter without stars and without a keyword. -/
def positionalItem (nested : Parser ε TypeExpr) (acc : Params TypeExpr) : Parser ε (Params TypeExpr) := do
  if ← accept .question then
    if acc.rest.isSome || !acc.trailing.isEmpty then
      fail "Optional parameter after '*' or trailing parameter"
    else return { acc with optional := acc.optional ++ [← param nested] }
  else if acc.rest.isSome || !acc.optional.isEmpty then
    return { acc with trailing := acc.trailing ++ [← param nested] }
  else return { acc with required := acc.required ++ [← param nested] }

theorem reads_positional {acc' : Params TypeExpr} (hopen : acc.restKeywords = none) (hkeywords : acc.keywords = [])
    {i o : List Face} (hstars : kindAt i 0 ≠ .mark .starStar) (hstar : kindAt i 0 ≠ .mark .star)
    (hlabel : labelAt i 0 = false) (hquestion : kindAt i 0 = .mark .question → labelAt i 1 = false)
    (h : Reads (positionalItem nested acc) i acc' o) : Reads (paramItem nested acc) i acc' o := by
  refine .ite_neg (by rw [hopen]; exact Bool.false_ne_true) ?_
  refine reads_unless_accept hstars (reads_unless_accept hstar ?_)
  refine reads_get_bind fun c hc => .ite_neg (by simp [Cursor.atKeyword_eq, hc, hlabel]) ?_
  refine reads_get_bind fun c hc => reads_get_bind fun c' hc' => .ite_neg ?_ ?_
  · simpa [Cursor.atKeyword_eq, Cursor.atMark_eq, hc, hc'] using hquestion
  · exact .ite_neg (by simp [hasKeywords, hkeywords]) h

theorem Unlabelled.param (hq : Unlabelled (faces (spell q.type))) (hm : m ∉ typeMarks) (rest : List Face) :
    labelAt (faces (q.pieces spell) ++ ofMark m :: rest) 0 = false := by
  have hcolon : m ≠ .colon := by
    rintro rfl
    exact hm (by decide)
  obtain ⟨type, name⟩ := q
  rw [Param.pieces, faces_append, List.append_assoc]
  refine hq _ ?_
  cases name with
  | none => exact fun h => hcolon (TokenKind.mark.inj h)
  | some name =>
    rw [Option.elim_some, faces_blank, faces_word]
    exact kindAt_word_ne

theorem reads_paramItem {i : Item TypeExpr} (hi : i.Allowed acc)
    (hq : Legible nested (spell i.param.type) i.param.type) (hm : m ∉ typeMarks) (rest : List Face) :
    Reads (paramItem nested acc) (faces (i.pieces spell) ++ ofMark m :: rest) (i.add acc) (ofMark m :: rest) := by
  obtain ⟨hopen, hkey, hplace⟩ := hi
  have hrest : ¬ acc.restKeywords.isSome = true := by rw [hopen]; exact Bool.false_ne_true
  have hparam := reads_param hq hm rest
  have hlabel := hq.unlabelled.param hm rest
  have hhead : ∀ m', (Piece.mark m').opens = false →
      kindAt (faces (i.param.pieces spell) ++ ofMark m :: rest) 0 ≠ .mark m' := fun m' hm' => by
    rw [Param.pieces, faces_append, List.append_assoc]
    exact hq.phrase.kindAt_ne hm' _
  cases i with
  | required q =>
    refine reads_positional hopen hplace.1 (hhead _ rfl) (hhead _ rfl) hlabel (fun h => absurd h (hhead _ rfl)) ?_
    refine reads_unless_accept (hhead _ rfl) (.ite_neg ?_ (hparam.bind (reads_pure _ _)))
    simp [hplace.2.1, hplace.2.2]
  | trailing q =>
    refine reads_positional hopen hplace.1 (hhead _ rfl) (hhead _ rfl) hlabel (fun h => absurd h (hhead _ rfl)) ?_
    refine reads_unless_accept (hhead _ rfl) (.ite_pos ?_ (hparam.bind (reads_pure _ _)))
    simpa using hplace.2
  | optional q =>
    refine reads_positional hopen hplace.1 (by rintro ⟨⟩) (by rintro ⟨⟩) rfl (fun _ => hlabel) ?_
    refine reads_if_accept .question (.ite_neg ?_ (hparam.bind (reads_pure _ _)))
    simp [hplace.2.1, hplace.2.2]
  | rest q =>
    refine .ite_neg hrest (reads_unless_accept (by rintro ⟨⟩) (reads_if_accept .star ?_))
    refine .ite_neg (by simp [hplace.2]) (.ite_neg (by simp [hasKeywords, hplace.1]) (hparam.bind (reads_pure _ _)))
  | requiredKeyword name q =>
    have hkeyword := reads_keywordParam hq (hkey name rfl) hm rest
    rw [faces_label] at hkeyword
    rw [Item.pieces, faces_label]
    refine .ite_neg hrest (reads_unless_accept kindAt_word_ne (reads_unless_accept kindAt_word_ne ?_))
    refine reads_get_bind fun c hc => .ite_pos ?_ (hkeyword.bind (reads_pure _ _))
    simp [Cursor.atKeyword_eq, hc]
  | optionalKeyword name q =>
    have hkeyword := reads_keywordParam hq (hkey name rfl) hm rest
    rw [faces_label] at hkeyword
    rw [Item.pieces, faces_mark, faces_label]
    refine .ite_neg hrest (reads_unless_accept (by rintro ⟨⟩) (reads_unless_accept (by rintro ⟨⟩) ?_))
    refine reads_get_bind fun c hc => .ite_neg (by simp [Cursor.atKeyword_eq, hc]) ?_
    refine reads_get_bind fun c hc => reads_get_bind fun c' hc' => .ite_pos ?_ ?_
    · simp [Cursor.atKeyword_eq, Cursor.atMark_eq, hc, hc']
    · exact reads_advance_bind (by rintro ⟨⟩) fun _ _ => hkeyword.bind (reads_pure _ _)
  | restKeywords q => exact .ite_neg hrest (reads_if_accept .starStar (hparam.bind (reads_pure _ _)))

end Parser

/-- Adding the parameters one by one, each where it may stand, leads from the first groups to the second. -/
inductive Item.Grows {τ : Type} : Params τ → List (Item τ) → Params τ → Prop
  | nil (acc : Params τ) : Grows acc [] acc
  | cons {acc acc' : Params τ} {i : Item τ} {is : List (Item τ)} (hi : i.Allowed acc) (his : Grows (i.add acc) is acc') :
      Grows acc (i :: is) acc'

namespace Item.Grows

variable {τ α : Type}

theorem append {acc mid acc' : Params τ} {is js : List (Item τ)} (his : Grows acc is mid) (hjs : Grows mid js acc') :
    Grows acc (is ++ js) acc' := by
  induction his with
  | nil => exact hjs
  | cons hi _ ih => exact .cons hi (ih hjs)

/-- A group that grows parameter by parameter. -/
theorem group (mk : α → Item τ) (set : List α → Params τ) (hset : ∀ xs x, (mk x).add (set xs) = set (xs ++ [x]))
    (xs ys : List α) (hallowed : ∀ before x after, xs ++ ys = before ++ x :: after → (mk x).Allowed (set before)) :
    Grows (set xs) (ys.map mk) (set (xs ++ ys)) := by
  induction ys generalizing xs with
  | nil =>
    rw [List.append_nil]
    exact .nil _
  | cons y ys ih =>
    have hassoc : xs ++ [y] ++ ys = xs ++ y :: ys := by rw [List.append_assoc, List.singleton_append]
    refine .cons (hallowed xs y ys rfl) ?_
    rw [hset, ← hassoc]
    exact ih (xs ++ [y]) fun before x after h => hallowed before x after (hassoc.symm.trans h)

/-- A group of at most one parameter. -/
theorem single (mk : α → Item τ) (set : Option α → Params τ) (hset : ∀ x, (mk x).add (set none) = set (some x))
    (x : Option α) (hallowed : ∀ y ∈ x, (mk y).Allowed (set none)) : Grows (set none) (x.toList.map mk) (set x) := by
  cases x with
  | none => exact .nil _
  | some y =>
    refine .cons (hallowed y rfl) ?_
    rw [hset]
    exact .nil _

end Item.Grows

/-- The groups of a list that was read are those that its parameters are added to one by one. -/
theorem Params.Read.grows (hp : p.Read N) : Item.Grows {} p.items p := by
  obtain ⟨required, optional, rest, trailing, requiredKeywords, optionalKeywords, restKeywords⟩ := p
  have hnew : ∀ before x after, requiredKeywords ++ optionalKeywords = before ++ x :: after →
      ∀ kq ∈ before, kq.1 ≠ x.1 := by
    intro before x after h kq hkq heq
    have hnodup := hp.distinct
    rw [Params.keywords, h, List.map_append, List.map_cons] at hnodup
    refine (List.nodup_append.1 hnodup).2.2 kq.1 (List.mem_map_of_mem hkq) x.1 List.mem_cons_self heq
  have hrequired : Item.Grows {} (required.map .required) ⟨required, [], none, [], [], [], none⟩ :=
    .group .required (fun xs => ⟨xs, [], none, [], [], [], none⟩) (fun _ _ => rfl) [] required
      fun _ _ _ _ => ⟨rfl, (by rintro _ ⟨⟩), rfl, rfl, rfl⟩
  have hoptional : Item.Grows _ (optional.map .optional) ⟨required, optional, none, [], [], [], none⟩ :=
    .group .optional (fun xs => ⟨required, xs, none, [], [], [], none⟩) (fun _ _ => rfl) [] optional
      fun _ _ _ _ => ⟨rfl, (by rintro _ ⟨⟩), rfl, rfl, rfl⟩
  have hrest : Item.Grows _ (rest.toList.map .rest) ⟨required, optional, rest, [], [], [], none⟩ :=
    .single .rest (fun x => ⟨required, optional, x, [], [], [], none⟩) (fun _ => rfl) rest
      fun _ _ => ⟨rfl, (by rintro _ ⟨⟩), rfl, rfl⟩
  have htrailing : Item.Grows _ (trailing.map .trailing) ⟨required, optional, rest, trailing, [], [], none⟩ :=
    .group .trailing (fun xs => ⟨required, optional, rest, xs, [], [], none⟩) (fun _ _ => rfl) [] trailing
      fun before x after h => by
        have hne : trailing ≠ [] := by
          rintro rfl
          simp at h
        exact ⟨rfl, (by rintro _ ⟨⟩), rfl, (hp.trailing hne).symm⟩
  have hrequiredKeywords : Item.Grows _ (requiredKeywords.map fun kq => .requiredKeyword kq.1 kq.2)
      ⟨required, optional, rest, trailing, requiredKeywords, [], none⟩ :=
    .group (fun kq => .requiredKeyword kq.1 kq.2) (fun xs => ⟨required, optional, rest, trailing, xs, [], none⟩)
      (fun _ _ => rfl) [] requiredKeywords fun before x after h => by
        refine ⟨rfl, fun k hk kq hkq => ?_, trivial⟩
        cases hk
        rw [Params.keywords, List.append_nil] at hkq
        refine hnew before x (after ++ optionalKeywords) ?_ kq hkq
        rw [← List.cons_append, ← List.append_assoc, ← h]
        rfl
  have hoptionalKeywords : Item.Grows _ (optionalKeywords.map fun kq => .optionalKeyword kq.1 kq.2)
      ⟨required, optional, rest, trailing, requiredKeywords, optionalKeywords, none⟩ :=
    .group (fun kq => .optionalKeyword kq.1 kq.2)
      (fun xs => ⟨required, optional, rest, trailing, requiredKeywords, xs, none⟩) (fun _ _ => rfl) [] optionalKeywords
      fun before x after h => by
        refine ⟨rfl, fun k hk kq hkq => ?_, trivial⟩
        cases hk
        refine hnew (requiredKeywords ++ before) x after ?_ kq hkq
        rw [List.append_assoc, ← h]
        rfl
  have hrestKeywords : Item.Grows _ (restKeywords.toList.map .restKeywords)
      ⟨required, optional, rest, trailing, requiredKeywords, optionalKeywords, restKeywords⟩ :=
    .single .restKeywords (fun x => ⟨required, optional, rest, trailing, requiredKeywords, optionalKeywords, x⟩)
      (fun _ => rfl) restKeywords fun _ _ => ⟨rfl, (by rintro _ ⟨⟩), trivial⟩
  exact (((((hrequired.append hoptional).append hrest).append htrailing).append hrequiredKeywords).append
    hoptionalKeywords).append hrestKeywords

namespace Parser

variable {ε : Type} {nested : Parser ε TypeExpr} {spell : TypeExpr → List Piece}
  {fuel : Nat} {rest : List Face} {extra : Option TypeExpr} {sp : Spelling}

theorem reads_paramItems {is : List (Item TypeExpr)} (hne : is ≠ []) (hgrows : Item.Grows acc is p)
    (his : ∀ i ∈ is, Legible nested (spell i.param.type) i.param.type) (hfuel : is.length ≤ fuel) (rest : List Face) :
    Reads (paramItems nested acc fuel) (faces (commas (is.map (Item.pieces spell))) ++ ofMark .rparen :: rest)
      p (ofMark .rparen :: rest) := by
  induction hgrows generalizing fuel with
  | nil => exact absurd rfl hne
  | @cons acc p i is hi hgrows ih =>
    obtain ⟨fuel, rfl⟩ : ∃ k, fuel = k + 1 := ⟨fuel - 1, by rw [List.length_cons] at hfuel; omega⟩
    have hitem := fun m hm o => reads_paramItem (m := m) hi (his i List.mem_cons_self) hm o
    cases is with
    | nil =>
      cases hgrows
      rw [List.map_singleton, commas, List.intercalate_singleton]
      exact (hitem .rparen (by decide) rest).bind (reads_unless_accept (by rintro ⟨⟩) (reads_pure _ _))
    | cons j js =>
      have htail := ih (List.cons_ne_nil _ _) (fun j hj => his j (List.mem_cons_of_mem _ hj))
        (Nat.le_of_succ_le_succ hfuel)
      rw [commas, List.map_cons, List.map_cons, List.intercalate_cons_cons, ← List.map_cons, ← commas,
        faces_append, faces_append, faces_mark, faces_blank, faces_nil, List.append_assoc,
        List.append_assoc, List.singleton_append]
      exact (hitem .comma (by decide) _).bind (reads_if_accept .comma htail)

theorem kindAt_item_ne {i : Item TypeExpr} (hi : Legible nested (spell i.param.type) i.param.type) (rest : List Face) :
    kindAt (faces (i.pieces spell) ++ rest) 0 ≠ .mark .rparen := by
  have hparam : kindAt (faces (i.param.pieces spell) ++ rest) 0 ≠ .mark .rparen := by
    rw [Param.pieces, faces_append, List.append_assoc]
    exact hi.phrase.kindAt_ne rfl _
  cases i with
  | required q => exact hparam
  | trailing q => exact hparam
  | optional q => rintro ⟨⟩
  | rest q => rintro ⟨⟩
  | requiredKeyword name q =>
    rw [Item.pieces, faces_label]
    exact kindAt_word_ne
  | optionalKeyword name q => rintro ⟨⟩
  | restKeywords q => rintro ⟨⟩

theorem reads_params (hp : p.Read N) (hspell : ∀ u ∈ p.types, Legible nested (spell u) u) (rest : List Face) :
    Reads (params nested) (faces (p.pieces spell) ++ rest) p rest := by
  have hitems : ∀ i ∈ p.items, Legible nested (spell i.param.type) i.param.type := fun i hi =>
    hspell _ (List.mem_map_of_mem (Item.param_mem hi))
  have hgrows := hp.grows
  rw [Params.pieces, faces_mark, faces_append, faces_mark, faces_nil, List.cons_append,
    List.append_assoc, List.singleton_append]
  generalize p.items = is at hitems hgrows ⊢
  refine (reads_expect .lparen _ _).bind (reads_get_bind fun c hc => ?_)
  cases is with
  | nil =>
    cases hgrows
    refine .ite_pos (by rw [Cursor.atMark_eq, hc]; rfl) ?_
    exact (reads_pure _ _).bind ((reads_expect .rparen _ _).bind (reads_pure _ _))
  | cons i is =>
    refine .ite_neg ?_ ?_
    · obtain ⟨qs, hqs⟩ := exists_commas_cons (i.pieces spell) (is.map (Item.pieces spell))
      rw [Cursor.atMark_eq, hc, List.map_cons, hqs, faces_append, List.append_assoc, beq_iff_eq]
      exact kindAt_item_ne (hitems i List.mem_cons_self) _
    · refine reads_get_bind fun c' hc' => ?_
      refine (reads_paramItems (List.cons_ne_nil _ _) hgrows hitems ?_ rest).bind
        ((reads_expect .rparen _ _).bind (reads_pure _ _))
      have hlength := length_le_intercalate .comma (((i :: is).map (Item.pieces spell)).map faces)
      rw [List.length_map, List.length_map] at hlength
      rw [Cursor.length_tokens, hc', faces_commas, List.length_append]
      omega

theorem reads_optionalParams (hp : p.Read N) (hspell : ∀ u ∈ p.types, Legible nested (spell u) u) (rest : List Face) :
    Reads (optionalParams nested) (faces (p.pieces spell) ++ rest) p rest :=
  reads_get_bind fun c hc => .ite_pos (by rw [Cursor.atMark_eq, hc]; rfl) (reads_params hp hspell rest)

/-- A question mark that says whether something is required. -/
theorem reads_required (required : Bool) {i : List Face} (hi : kindAt i 0 ≠ .mark .question) :
    Reads (accept .question : Parser ε Bool) (faces (if required then [] else [.mark .question]) ++ i) (!required) i := by
  cases required with
  | true => exact reads_accept_of_ne hi
  | false => exact reads_accept .question i

theorem reads_block {b : Block TypeExpr} (hp : b.params.Read N) (hspell : ∀ u ∈ b.types, Legible nested (spell u) u)
    (rest : List Face) : Reads (block nested) (faces (b.pieces spell) ++ rest) b rest := by
  obtain ⟨p, t, required⟩ := b
  have hparams := reads_optionalParams hp fun u hu => hspell u (List.mem_append_left _ hu)
  have hresult := (hspell t (List.mem_append_right _ List.mem_cons_self)).reads
  simp only [Block.pieces, arrow, faces_append, faces_mark, faces_blank, faces_nil,
    List.append_assoc, List.cons_append, List.nil_append]
  refine (reads_required required (kindAt_mark_ne (by decide))).bind ((reads_expect .lbrace _ _).bind ((hparams _).bind ?_))
  refine reads_unless_accept (by rintro ⟨⟩) ((reads_expect .arrow _ _).bind ?_)
  refine (hresult _ (after_mark (by decide) _)).bind ((reads_expect .rbrace _ _).bind ?_)
  rw [Bool.not_not]
  exact reads_pure _ _

theorem reads_optionalBlock {b : Option (Block TypeExpr)} (hb : ∀ b' ∈ b, b'.params.Read N)
    (hspell : ∀ b' ∈ b, ∀ u ∈ b'.types, Legible nested (spell u) u) (rest : List Face) :
    Reads (optionalBlock nested) (faces (ofBlock spell b) ++ ofMark .arrow :: rest) b
      (ofMark .arrow :: rest) := by
  refine reads_get_bind fun c hc => ?_
  have hatBlock : c.atBlock = (kindAt c.faces 0 == .mark .lbrace ||
      (kindAt c.faces 0 == .mark .question && kindAt c.faces 1 == .mark .lbrace)) := by
    rw [Cursor.atBlock, Cursor.atMark_eq, Cursor.atMark_eq, Cursor.kind_eq_kindAt]
  cases b with
  | none =>
    refine .ite_neg ?_ (reads_pure _ _)
    rw [hatBlock, hc]
    exact Bool.false_ne_true
  | some b =>
    have hblock := reads_block (hb b rfl) (hspell b rfl) (ofMark .arrow :: rest)
    refine .ite_pos ?_ (hblock.bind (reads_pure _ _))
    rw [hatBlock, hc]
    cases hrequired : b.required <;> simp [ofBlock, Block.pieces, hrequired]

/-- What stands after the parameters of a proc or a signature. -/
theorem reads_tail {b : Option (Block TypeExpr)} (hb : ∀ b' ∈ b, b'.params.Read N)
    (hspell : ∀ b' ∈ b, ∀ u ∈ b'.types, Legible nested (spell u) u) {α : Type}
    {k : Option (Block TypeExpr) → Parser ε α} {message : String} {row : List Piece} {o : List Face} {a : α}
    (hk : Reads (k b) (faces row ++ rest) a o) :
    Reads (optionalBlock nested >>= fun b => expect .arrow message >>= fun _ => k b)
      (faces (TypeExpr.tailPieces spell b row) ++ rest) a o := by
  simp only [TypeExpr.tailPieces, arrow, faces_append, faces_mark, faces_blank,
    List.append_assoc, List.cons_append, List.nil_append]
  exact (reads_optionalBlock hb hspell _).bind ((reads_expect .arrow _ _).bind hk)

/-! ## Records -/

theorem reads_fieldKey {k : Key} (hk : ∀ b, k ≠ .bool b) (i : List Face) :
    Reads (fieldKey : Parser ε Key) (faces (ofKey k) ++ i) k i := by
  have harrow : ∀ {f : Face} {l : Literal}, f.isWord = false → f.kind ≠ .endOfText → literal? f.kind = some l →
      Reads (fieldKey : Parser ε Key) (f :: ofMark .fatArrow :: i) l.value i := by
    intro f l hword hend hl
    refine reads_get_bind fun c hc => .ite_neg (by simp [Cursor.atKeyword_eq, hc, hword]) ?_
    have hkind : literal? c.kind = some l := by rw [Cursor.kind_eq_kindAt, hc, kindAt_zero, hl]
    rw [hkind]
    refine .ite_pos (by simp [Cursor.kind_eq_kindAt, hc]) ?_
    exact reads_advance_bind hend fun _ _ => reads_advance_bind (by rintro ⟨⟩) fun _ _ => reads_pure _ _
  cases k with
  | int n => exact harrow (f := ⟨.integer n, _⟩) rfl (by rintro ⟨⟩) rfl
  | bool b => exact absurd rfl (hk b)
  | str s =>
    simp only [ofKey]
    split
    · rw [← List.append_nil (label s), faces_label]
      refine reads_get_bind fun c hc => .ite_pos (by simp [Cursor.atKeyword_eq, hc]) ?_
      refine reads_advance_bind (wordKind_ne_end s) fun t ht => reads_advance_bind (by rintro ⟨⟩) fun _ _ => ?_
      have hlexeme : t.lexeme = s := congrArg Face.lexeme ht
      rw [hlexeme]
      exact reads_pure _ _
    · exact harrow (f := ⟨.string s, _⟩) rfl (by rintro ⟨⟩) rfl

theorem kindAt_key_ne (k : Key) (i : List Face) (m : Mark) : kindAt (faces (ofKey k) ++ i) 0 ≠ .mark m := by
  cases k with
  | int n => rintro ⟨⟩
  | bool b => exact wordKind_ne_mark _ m
  | str s =>
    simp only [ofKey]
    split
    · rw [← List.append_nil (label s), faces_label]
      exact kindAt_word_ne
    · rintro ⟨⟩

/-- One field, and what comes after it. -/
theorem reads_recordItems_field {fields : List (Field TypeExpr)} {f : Field TypeExpr} {row i o : List Face} {t : TypeExpr}
    (hnew : ∀ g ∈ fields, g.key.same f.key = false) (hkey : ∀ b, f.key ≠ .bool b)
    (hf : Reads nested (row ++ i) f.type i)
    (hnext : Reads (accept .comma >>= fun x => if x = true then recordItems nested (fields ++ [f]) extra fuel
      else pure (.record (fields ++ [f]) extra)) i t o) :
    Reads (recordItems nested fields extra (fuel + 1)) (faces f.lead ++ (row ++ i)) t o := by
  obtain ⟨key, type, required⟩ := f
  have hkind := kindAt_key_ne key (row ++ i)
  simp only [Field.lead, faces_append, List.append_assoc]
  refine reads_unless_accept ?_ ?_
  · cases required with
    | true => exact hkind .starStar
    | false => rintro ⟨⟩
  · refine (reads_required required (hkind .question)).bind ((reads_fieldKey hkey _).bind (.ite_neg ?_ ?_))
    · rw [List.any_eq_true]
      rintro ⟨g, hg, hsame⟩
      rw [hnew g hg] at hsame
      cases hsame
    · refine hf.bind ?_
      rw [Bool.not_not]
      exact (reads_pure _ _).bind hnext

theorem reads_recordItems (fields : List (Field TypeExpr)) {fs : List (Field TypeExpr)}
    (hne : Entry.all fs extra ≠ []) (hkeys : (fields ++ fs).Pairwise fun f g => f.key.same g.key = false)
    (hprint : ∀ f ∈ fs, f.key.Printable) (hspell : ∀ e ∈ Entry.all fs extra, Legible nested (spell e.type) e.type)
    (hfuel : (Entry.all fs extra).length ≤ fuel) (rest : List Face) : Reads (recordItems nested fields none fuel)
      (faces (commas ((Entry.all fs extra).map (Entry.pieces spell))) ++ ofMark .rbrace :: rest)
      (.record (fields ++ fs) extra) (ofMark .rbrace :: rest) := by
  obtain ⟨fuel, rfl⟩ : ∃ k, fuel = k + 1 := by
    have hpos := List.length_pos_iff.2 hne
    exact ⟨fuel - 1, by omega⟩
  induction fs generalizing fields fuel with
  | nil =>
    cases extra with
    | none => exact absurd rfl hne
    | some t =>
      have ht := (hspell (.extra t) List.mem_cons_self).reads _ (after_mark (m := .rbrace) (by decide) rest)
      have hrow : commas ((Entry.all [] (some t)).map (Entry.pieces spell)) = .mark .starStar :: spell t :=
        List.intercalate_singleton
      rw [List.append_nil, hrow, faces_mark]
      refine reads_if_accept .starStar (.ite_neg Bool.false_ne_true (ht.bind ?_))
      exact (reads_pure _ _).bind (reads_unless_accept nofun (reads_pure _ _))
  | cons f fs ih =>
    have hassoc : fields ++ [f] ++ fs = fields ++ f :: fs := by rw [List.append_assoc, List.singleton_append]
    have hbool (b : Bool) : f.key ≠ .bool b := fun hk => (hk ▸ hprint f List.mem_cons_self : (Key.bool b).Printable)
    have hstep {i o : List Face} {t : TypeExpr} {fuel : Nat} (hi : After typeMarks i)
        (hnext : Reads (accept .comma >>= fun x => if x = true then recordItems nested (fields ++ [f]) none fuel
          else pure (.record (fields ++ [f]) none)) i t o) :
        Reads (recordItems nested fields none (fuel + 1)) (faces (f.pieces spell) ++ i) t o := by
      rw [Field.pieces, faces_append, List.append_assoc]
      exact reads_recordItems_field (fun g hg => (List.pairwise_append.1 hkeys).2.2 g hg f List.mem_cons_self) hbool
        ((hspell (.field f) List.mem_cons_self).reads _ hi) hnext
    have hall : (Entry.all (f :: fs) extra).map (Entry.pieces spell) =
        f.pieces spell :: (Entry.all fs extra).map (Entry.pieces spell) := rfl
    rw [hall, ← hassoc]
    by_cases hlast : Entry.all fs extra = []
    · have hempty : fs = [] ∧ extra = none := by
        cases fs <;> cases extra <;> simp [Entry.all] at hlast ⊢
      rw [hlast, hempty.1, hempty.2, List.map_nil, commas, List.intercalate_singleton, List.append_nil]
      exact hstep (after_mark (by decide) rest) (reads_unless_accept nofun (reads_pure _ _))
    · have hlength : (Entry.all fs extra).length ≤ fuel := Nat.le_of_succ_le_succ hfuel
      obtain ⟨fuel, rfl⟩ : ∃ k, fuel = k + 1 := by
        have hpos := List.length_pos_iff.2 hlast
        exact ⟨fuel - 1, by omega⟩
      have htail := ih _ hlast (by rwa [hassoc]) (fun g hg => hprint g (List.mem_cons_of_mem _ hg))
        (fun e he => hspell e (List.mem_cons_of_mem _ he)) fuel hlength
      rw [faces_commas_cons _ (by simpa using hlast), List.append_assoc, List.cons_append]
      exact hstep (after_mark (by decide) _) (reads_if_accept .comma htail)

theorem kindAt_lead_ne (f : Field TypeExpr) (rest : List Face) : kindAt (faces f.lead ++ rest) 0 ≠ .mark .rbrace := by
  obtain ⟨key, type, required⟩ := f
  cases required with
  | true => exact kindAt_key_ne key rest .rbrace
  | false => nofun

theorem kindAt_entry_ne (e : Entry) (rest : List Face) : kindAt (faces (e.pieces spell) ++ rest) 0 ≠ .mark .rbrace := by
  cases e with
  | extra t => nofun
  | field f =>
    rw [Entry.pieces, Field.pieces, faces_append, List.append_assoc]
    exact kindAt_lead_ne f _

theorem reads_record {fields : List (Field TypeExpr)} (hkeys : fields.Pairwise fun f g => f.key.same g.key = false)
    (hprint : ∀ f ∈ fields, f.key.Printable)
    (hspell : ∀ u ∈ (TypeExpr.record fields extra).children, Legible nested (spell u) u) (rest : List Face) :
    Reads (record nested) (faces (TypeExpr.recordPieces spell (Entry.all fields extra)) ++ rest)
      (.record fields extra) rest := by
  have hentries : ∀ e ∈ Entry.all fields extra, Legible nested (spell e.type) e.type := by
    intro e he
    rcases List.mem_append.1 he with he | he
    · obtain ⟨f, hf, rfl⟩ := List.mem_map.1 he
      exact hspell f.type (List.mem_append_left _ (List.mem_map_of_mem hf))
    · obtain ⟨t, ht, rfl⟩ := List.mem_map.1 he
      exact hspell t (List.mem_append_right _ ht)
  unfold TypeExpr.recordPieces
  split
  · rename_i hempty
    have hnone : fields = [] ∧ extra = none := by
      cases fields <;> cases extra <;> simp [Entry.all] at hempty ⊢
    rw [hnone.1, hnone.2]
    refine (reads_expect .lbrace _ _).bind (reads_get_bind fun c hc => .ite_pos (by rw [Cursor.atMark_eq, hc]; rfl) ?_)
    exact (reads_pure _ _).bind ((reads_expect .rbrace _ _).bind (reads_pure _ _))
  · rename_i hne
    rw [List.isEmpty_iff] at hne
    simp only [faces_mark, faces_blank, faces_append, faces_nil, List.cons_append,
      List.append_assoc, List.nil_append]
    refine (reads_expect .lbrace _ _).bind (reads_get_bind fun c hc => .ite_neg ?_ ?_)
    · obtain ⟨e, es, hes⟩ := List.exists_cons_of_ne_nil hne
      obtain ⟨qs, hqs⟩ := exists_commas_cons (e.pieces spell) (es.map (Entry.pieces spell))
      rw [Cursor.atMark_eq, hc, hes, List.map_cons, hqs, faces_append, List.append_assoc, beq_iff_eq]
      exact kindAt_entry_ne e _
    · refine reads_get_bind fun c' hc' => ?_
      refine (reads_recordItems [] hne hkeys hprint hentries ?_ rest).bind
        ((reads_expect .rbrace _ _).bind (reads_pure _ _))
      have hlength := length_le_intercalate .comma (((Entry.all fields extra).map (Entry.pieces spell)).map faces)
      rw [List.length_map, List.length_map] at hlength
      rw [Cursor.length_tokens, hc', faces_commas, List.length_append]
      omega

/-! ## Other types in brackets or with a name -/

theorem reads_commas {ts : List TypeExpr} (hne : ts ≠ []) (hspell : ∀ u ∈ ts, Legible nested (spell u) u)
    (hm : m ∉ .comma :: typeMarks) (rest : List Face) :
    Reads (separatedBy .comma nested) (faces (commas (ts.map spell)) ++ ofMark m :: rest) ts
      (ofMark m :: rest) := by
  rw [faces_commas, List.map_map]
  exact reads_separatedBy hne (by decide) (after_mark hm rest) fun u hu => (hspell u hu).reads

theorem reads_tuple {ts : List TypeExpr} (hspell : ∀ u ∈ ts, Legible nested (spell u) u) (rest : List Face) :
    Reads (advance >>= fun _ => tuple nested) (faces (TypeExpr.tuplePieces spell ts) ++ rest) (.tuple ts) rest := by
  simp only [TypeExpr.tuplePieces, faces_mark, faces_append, faces_nil, List.cons_append,
    List.append_assoc, List.nil_append]
  refine reads_advance_bind nofun fun _ _ => reads_get_bind fun c hc => ?_
  cases ts with
  | nil =>
    refine .ite_pos (by rw [Cursor.atMark_eq, hc]; rfl) ?_
    exact (reads_pure _ _).bind ((reads_expect .rbracket _ _).bind (reads_pure _ _))
  | cons t ts =>
    refine .ite_neg ?_ ?_
    · obtain ⟨qs, hqs⟩ := exists_commas_cons (spell t) (ts.map spell)
      rw [Cursor.atMark_eq, hc, List.map_cons, hqs, faces_append, List.append_assoc, beq_iff_eq]
      exact (hspell t List.mem_cons_self).phrase.kindAt_ne rfl _
    · exact (reads_commas (List.cons_ne_nil _ _) hspell (by decide) rest).bind
        ((reads_expect .rbracket _ _).bind (reads_pure _ _))

theorem reads_typeArgs {args : List TypeExpr} (hspell : ∀ u ∈ args, Legible nested (spell u) u)
    (hrest : After primaryMarks rest) :
    Reads (typeArgs nested) (faces (TypeExpr.argsPieces spell args) ++ rest) args rest := by
  unfold TypeExpr.argsPieces
  split
  · rename_i hempty
    rw [List.isEmpty_iff] at hempty
    subst hempty
    exact reads_unless_accept (hrest.mark .lbracket (by decide)) (reads_pure _ _)
  · rename_i hne
    rw [List.isEmpty_iff] at hne
    simp only [TypeExpr.tuplePieces, faces_mark, faces_append, faces_nil, List.cons_append,
      List.append_assoc, List.nil_append]
    exact reads_if_accept .lbracket ((reads_commas hne hspell (by decide) rest).bind
      ((reads_expect .rbracket _ _).bind (reads_pure _ _)))

theorem reads_singleton (hsp : sp.Valid) (rest : List Face) :
    Reads (advance >>= fun _ => singleton : Parser ε TypeExpr) (faces (TypeExpr.singletonPieces sp) ++ rest)
      (.singleton sp.qualified.text) rest := by
  simp only [TypeExpr.singletonPieces, faces_mark, faces_word, faces_append, faces_nil,
    List.cons_append, List.append_assoc, List.nil_append]
  refine reads_advance_bind (wordKind_ne_end Keyword.singleton.text) fun _ _ => (reads_expect .lparen _ _).bind ?_
  exact (reads_qualifiedName hsp (after_mark (by decide) rest)).bind ((reads_expect .rparen _ _).bind (reads_pure _ _))

variable {scope : Scope ε}

theorem reads_classRef (hsp : sp.Valid) (hvar : sp.qualified.bare ∉ scope.typeParams)
    (hlast : sp.qualified.last.startsWith "_" = false) {args : List TypeExpr}
    (hspell : ∀ u ∈ args, Legible nested (spell u) u) (hrest : After primaryMarks rest) :
    Reads (named scope nested) (faces (sp.pieces ++ TypeExpr.argsPieces spell args) ++ rest)
      (.classRef sp.qualified.text args) rest := by
  have hafter : After nameMarks (faces (TypeExpr.argsPieces spell args) ++ rest) := by
    unfold TypeExpr.argsPieces
    split
    · exact hrest.tail.tail
    · exact after_mark (by decide) _
  rw [faces_append, List.append_assoc]
  refine (reads_qualifiedName hsp hafter).bind (.ite_neg (by simpa using hvar) ?_)
  refine (reads_typeArgs hspell hrest).bind (.ite_neg ?_ (reads_pure _ _))
  rw [hlast]
  exact Bool.false_ne_true

theorem reads_relative (hsp : sp.Valid) (hrest : After nameMarks rest) :
    Reads (qualifiedName : Parser ε QualifiedName) (faces sp.relative.pieces ++ rest)
      { sp.qualified with rooted := false } rest := by
  have hrelative : sp.relative.Valid := hsp
  rw [← Spelling.qualified_relative]
  exact reads_qualifiedName hrelative hrest

theorem reads_lookup {name : String} {methods : List (Capability TypeExpr)} (h : scope.resolve name = .ok methods)
    (i : List Face) : Reads (lookup scope name) i methods i := by
  intro c hc
  refine ⟨{ c with mentions := c.mentions ++ [name] }, hc, ?_⟩
  change lookup scope name c = _
  simp only [lookup, h]

theorem reads_interface (hsp : sp.Valid) (hvar : sp.qualified.bare ∉ scope.typeParams)
    (hlast : sp.qualified.last.startsWith "_" = true) {methods : List (Capability TypeExpr)}
    (hmethods : scope.resolve sp.qualified.bare = .ok methods) (hrest : After primaryMarks rest) :
    Reads (named scope nested) (faces sp.relative.pieces ++ rest) (.interface sp.qualified.bare methods) rest := by
  refine (reads_relative hsp hrest.tail.tail).bind (.ite_neg (by simpa using hvar) ?_)
  have hargs : Reads (typeArgs nested) rest [] rest :=
    reads_unless_accept (hrest.mark .lbracket (by decide)) (reads_pure _ _)
  exact hargs.bind (.ite_pos hlast ((reads_lookup hmethods rest).bind (reads_pure _ _)))

theorem reads_typeVar (hsp : sp.Valid) (hvar : sp.qualified.bare ∈ scope.typeParams) (hrest : After primaryMarks rest) :
    Reads (named scope nested) (faces sp.relative.pieces ++ rest) (.typeVar sp.qualified.bare) rest := by
  refine (reads_relative hsp hrest.tail.tail).bind (.ite_pos (by simpa using hvar) ?_)
  refine reads_get_bind fun c hc => .ite_neg ?_ (reads_pure _ _)
  rw [Cursor.atMark_eq, hc, beq_iff_eq]
  exact hrest.mark .lbracket (by decide)

end Parser

end Conformance
