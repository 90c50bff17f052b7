import TableQuery.Proofs.Grammar.Variants.Literals

/-!
# Expressions that differ in kinds

A name has no variants but itself, so the atoms of a variant are on the same tables and
columns, and keywords stand at the same places, so the connectives are the same. An
expression is followed by induction on the length of its text
(`TableQuery.Grammar.readsVariants`).
-/

namespace TableQuery

namespace Grammar

open Text

variable {catalog : Catalog} {opened : Bool} {a b : List Char}

/-! ### Atoms -/

namespace Variant

/-- Names have no variants. -/
theorem eq_of_all_isName {names names' : List (List Char)}
    (h : List.Forall₂ (Variant false) names names') (hall : names.all isName = true) :
    names' = names := by
  induction h with
  | nil => rfl
  | cons hname _ ih =>
    rw [List.all_cons, Bool.and_eq_true] at hall
    rw [hname.eq_of_isName hall.1, ih hall.2]

theorem readColumns (h : Variant opened a b) :
    Follows (Leaving Eq) (readColumns a) (readColumns b) := by
  have hcolon : ¬IsClosing ':' := by decide
  obtain ⟨x, y, rfl, rfl, h'⟩ | ⟨ha, hb⟩ := h.cases_head hcolon
  · have hblind : KindBlind fun c => !(isBlank c || c == '(') := rfl
    have hcomma : KindBlind (· == ',') := rfl
    have hnames := ((h'.takeWhile hblind).splitOn hcomma).toList
    rw [Grammar.readColumns, Grammar.readColumns]
    split_ifs with hall hall'
    · exact .ok ⟨by rw [eq_of_all_isName hnames hall], h'.dropWhile hblind⟩
    · exact absurd (eq_of_all_isName hnames hall ▸ hall) hall'
    · exact .error
    · exact .error
  · rw [Grammar.readColumns, Grammar.readColumns]
    · exact .ok ⟨rfl, h.loosen⟩
    · exact hb
    · exact ha

theorem readRelation (h : Variant opened a b) {direction : Direction} {source : List Char}
    {columns : Option (List String)} {whole whole' : List Char} :
    FollowsUpTo Atom.foldKinds (readRelation catalog direction source columns a whole)
      (readRelation catalog direction source columns b whole') := by
  unfold Grammar.readRelation
  refine .ite Iff.rfl .error ?_
  dsimp only
  by_cases hname : isName (Text.trim a) = true
  · rw [h.trim.eq_of_isName hname]
    exact Follows.refl.mono fun _ _ h => by rw [h]
  · rw [if_pos (by simpa using hname)]
    exact .error

theorem readAtom (h : Variant opened a b) :
    FollowsUpTo Atom.foldKinds (readAtom catalog a) (readAtom catalog b) := by
  have hkey : IsKeyword "WHERE".toList := by decide
  have hwhere := h.stripKeyword hkey
  unfold Grammar.readAtom
  generalize Grammar.stripKeyword "WHERE" a = r at hwhere ⊢
  generalize Grammar.stripKeyword "WHERE" b = r' at hwhere ⊢
  cases hwhere with
  | none => exact .error
  | @some x y hrest =>
    obtain ⟨hname, hrest⟩ := hrest.takeName
    dsimp only
    rw [hname]
    refine .ite Iff.rfl .error (Follows.refl.bind fun _ _ _ _ => ?_)
    refine hrest.readColumns.bind fun r r' _ hr => ?_
    obtain ⟨columns, behind⟩ := r
    obtain ⟨columns', behind'⟩ := r'
    obtain ⟨rfl, hbehind⟩ := hr
    have htrim := hbehind.trim
    dsimp only
    generalize Text.trim behind = s at htrim ⊢
    generalize Text.trim behind' = t at htrim ⊢
    split
    · obtain ⟨_, rfl, h'⟩ := htrim.exists_of_cons (by decide)
      obtain ⟨_, rfl, h''⟩ := h'.exists_of_cons (by decide)
      exact h''.readRelation
    · obtain ⟨_, rfl, h'⟩ := htrim.exists_of_cons (by decide)
      obtain ⟨_, rfl, h''⟩ := h'.exists_of_cons (by decide)
      exact h''.readRelation
    · rename_i hforward hbackward
      have hgroup := htrim.unwrapGroup
      cases hinner : Grammar.unwrapGroup '(' s with
      | none => exact .error
      | some inner =>
      rw [hinner] at hgroup
      dsimp only
      split
      · obtain ⟨_, rfl, h'⟩ := htrim.exists_of_cons_right (by decide)
        obtain ⟨_, rfl, -⟩ := h'.exists_of_cons_right (by decide)
        exact (hforward _ rfl).elim
      · obtain ⟨_, rfl, h'⟩ := htrim.exists_of_cons_right (by decide)
        obtain ⟨_, rfl, -⟩ := h'.exists_of_cons_right (by decide)
        exact (hbackward _ rfl).elim
      · generalize Grammar.unwrapGroup '(' t = r' at hgroup ⊢
        cases hgroup with
        | some h =>
          exact h.readLiteral.map fun l l' hl => by rw [Atom.foldKinds, Atom.foldKinds, hl]

end Variant

/-! ### Connectives -/

section Pieces

variable {read : List Char → Except Error Expression}
  {join : Expression → Expression → Expression}
  (hjoin : ∀ {l r l' r' : Expression}, l'.foldKinds = l.foldKinds → r'.foldKinds = r.foldKinds →
    (join l' r').foldKinds = (join l r).foldKinds)

include hjoin

theorem follows_foldlM {pieces pieces' : List (List Char)}
    (h : List.Forall₂ (Variant false) pieces pieces')
    (hread : ∀ x ∈ pieces, ∀ y, Variant false x y →
      FollowsUpTo Expression.foldKinds (read x) (read y)) :
    ∀ {e e' : Expression}, e'.foldKinds = e.foldKinds →
      FollowsUpTo Expression.foldKinds (pieces.foldlM (fun e t => do return join e (← read t)) e)
        (pieces'.foldlM (fun e t => do return join e (← read t)) e') := by
  induction h with
  | nil => exact fun he => .ok he
  | cons hx _ ih =>
    intro e e' he
    rw [List.foldlM_cons, List.foldlM_cons]
    have hjoined : FollowsUpTo Expression.foldKinds _ _ :=
      (hread _ (List.mem_cons_self ..) _ hx).map fun _ _ h => hjoin he h
    exact hjoined.bind fun _ _ _ h => ih (fun x hx => hread x (List.mem_cons_of_mem _ hx)) h

/-- **A chain is read like its variants** if its pieces are. -/
theorem follows_readPieces {p q : Pieces} (h : VariantPieces opened p q)
    (hread : ∀ x ∈ p.toList, ∀ y, Variant false x y →
      FollowsUpTo Expression.foldKinds (read x) (read y)) :
    FollowsUpTo Expression.foldKinds (readPieces read join p) (readPieces read join q) :=
  (hread p.1 (List.mem_cons_self ..) q.1 h.1.loosen).bind fun _ _ _ he =>
    follows_foldlM hjoin h.2 (fun x hx => hread x (List.mem_cons_of_mem _ hx)) he

end Pieces

/-- The variants of texts shorter than this are read as expressions where the texts are. -/
def ReadsVariants (catalog : Catalog) (length : Nat) : Prop :=
  ∀ {a b : List Char}, a.length < length → Variant false a b →
    FollowsUpTo Expression.foldKinds (readExpression catalog a) (readExpression catalog b)

/-- An operand by what it begins with. -/
theorem readOperand_eq {text : List Char} (hne : trim text ≠ []) :
    readOperand catalog text =
      match stripKeyword "NOT" (trim text) with
      | some rest => (do return .not (← readExpression catalog rest))
      | none =>
        match unwrapGroup '(' (trim text) with
        | some inner => readExpression catalog inner
        | none => (do return .atom (← readAtom catalog (trim text))) := by
  have hempty : (trim text).isEmpty = false := by simp [hne]
  rw [readOperand, hempty, if_neg Bool.false_ne_true]
  split
  · rename_i h
    rw [h]
  · rename_i h
    rw [h]
    dsimp only
    split
    · rename_i h
      rw [h]
    · rename_i h
      rw [h]

namespace ReadsVariants

variable {length : Nat}

theorem operand (hshorter : ReadsVariants catalog length) (hlength : a.length ≤ length)
    (h : Variant false a b) :
    FollowsUpTo Expression.foldKinds (readOperand catalog a) (readOperand catalog b) := by
  have hkey : IsKeyword "NOT".toList := by decide
  have htrim := h.trim
  have hnot := htrim.stripKeyword hkey
  have hgroup := htrim.unwrapGroup
  by_cases hne : trim a = []
  · rw [readOperand, hne]
    exact .error
  rw [readOperand_eq hne, readOperand_eq (htrim.ne_nil hne)]
  cases hrest : stripKeyword "NOT" (trim a) with
  | some rest =>
    rw [hrest] at hnot
    obtain ⟨rest', hrest', hvariant⟩ := exists_of_rel_some hnot
    rw [hrest']
    have hlt := length_lt_of_stripKeyword_not hrest
    exact (hshorter (Nat.lt_of_lt_of_le hlt hlength) hvariant).map fun _ _ he => by
      rw [Expression.foldKinds, Expression.foldKinds, he]
  | none =>
    rw [hrest] at hnot
    rw [eq_none_of_rel hnot]
    dsimp only
    cases hinner : unwrapGroup '(' (trim a) with
    | some inner =>
      rw [hinner] at hgroup
      obtain ⟨inner', hinner', hvariant⟩ := exists_of_rel_some hgroup
      rw [hinner']
      have h₁ := length_unwrapGroup hinner
      have h₂ := length_trim_le a
      exact hshorter (by omega) hvariant
    | none =>
      rw [hinner] at hgroup
      rw [eq_none_of_rel hgroup]
      exact htrim.readAtom.map fun _ _ he => by
        rw [Expression.foldKinds, Expression.foldKinds, he]

theorem conjunction (hshorter : ReadsVariants catalog length) (hlength : a.length ≤ length)
    (h : Variant false a b) :
    FollowsUpTo Expression.foldKinds (readConjunction catalog a) (readConjunction catalog b) := by
  have hkey : IsKeyword "AND".toList := by decide
  rw [readConjunction_eq, readConjunction_eq]
  refine follows_readPieces (fun hl hr => ?_) (h.splitKeyword hkey) fun x hx y hxy => ?_
  · rw [Expression.foldKinds, Expression.foldKinds, hl, hr]
  · exact hshorter.operand (Nat.le_trans (length_le_of_mem_splitKeyword hx) hlength) hxy

theorem disjunction (hshorter : ReadsVariants catalog length) (hlength : a.length ≤ length)
    (h : Variant false a b) :
    FollowsUpTo Expression.foldKinds (readDisjunction catalog a) (readDisjunction catalog b) := by
  have hkey : IsKeyword "OR".toList := by decide
  refine follows_readPieces (fun hl hr => ?_) (h.splitKeyword hkey) fun x hx y hxy => ?_
  · rw [Expression.foldKinds, Expression.foldKinds, hl, hr]
  · exact hshorter.conjunction (Nat.le_trans (length_le_of_mem_splitKeyword hx) hlength) hxy

end ReadsVariants

/-- **The variants of an expression are read**, by induction on the length of its text. -/
theorem readsVariants (length : Nat) : ReadsVariants catalog length := by
  induction length with
  | zero => exact fun hlength => absurd hlength (Nat.not_lt_zero _)
  | succ length hshorter =>
    intro a b hlength h
    have hlength : a.length ≤ length := Nat.lt_succ_iff.mp hlength
    have hkey : IsKeyword "NOT".toList := by decide
    have htrim := h.trim
    have hnot := htrim.stripKeyword hkey
    by_cases hne : trim a = []
    · rw [readExpression, hne]
      exact .error
    cases hrest : stripKeyword "NOT" (trim a) with
    | some rest =>
      rw [hrest] at hnot
      obtain ⟨rest', hrest', hvariant⟩ := exists_of_rel_some hnot
      rw [readExpression_not hne hrest, readExpression_not (htrim.ne_nil hne) hrest']
      have hlt := length_lt_of_stripKeyword_not hrest
      exact (hshorter (Nat.lt_of_lt_of_le hlt hlength) hvariant).map fun _ _ he => by
        rw [Expression.foldKinds, Expression.foldKinds, he]
    | none =>
      rw [hrest] at hnot
      rw [readExpression_eq hne hrest,
        readExpression_eq (htrim.ne_nil hne) (eq_none_of_rel hnot)]
      exact hshorter.disjunction (Nat.le_trans (length_trim_le a) hlength) htrim

theorem Variant.readExpression (h : Variant false a b) :
    FollowsUpTo Expression.foldKinds (readExpression catalog a) (readExpression catalog b) :=
  readsVariants _ (Nat.lt_succ_self _) h

end Grammar

end TableQuery
