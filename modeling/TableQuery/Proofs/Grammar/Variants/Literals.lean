import TableQuery.Proofs.Grammar.Variants.Cuts
import TableQuery.Proofs.Grammar.WellFormed

/-!
# Literals that differ in kinds

Where a text is read, a variant of it is read as well, and what comes out differs in the
kinds of closing brackets alone. Even that happens only where a piece of the query is
taken over as it stands, in the texts of literals and of arguments; folding these with
`foldKinds` leaves no difference.

`TableQuery.FollowsUpTo` says this of two calculations that may fail. Nothing is claimed
where the first one fails, as the readers are not always blind to kinds: what is no
aggregation may have a variant that is one. The relation goes through sequences of
calculations (`TableQuery.Follows.bind`), so each reader has one lemma, which follows its
definition; this file has those of literals.
-/

namespace TableQuery

namespace Grammar

open Text

/-! ### What is read -/

/-- A text in which closing brackets are not told apart. -/
def foldKinds (text : String) : String :=
  String.ofList (text.toList.map foldKind)

end Grammar

open Grammar Text

/-- The item of a list with its text folded. -/
def ListItem.foldKinds (item : ListItem) : ListItem :=
  { item with text := Grammar.foldKinds item.text }

/-- The literal, where closing brackets in its texts are not told apart. -/
def Literal.foldKinds : Literal → Literal
  | text value caseSensitive mode => text (Grammar.foldKinds value) caseSensitive mode
  | dateRange lower upper =>
    dateRange (lower.map Grammar.foldKinds) (upper.map Grammar.foldKinds)
  | list items => list (items.map ListItem.foldKinds)
  | other => other

/-- The atom with its literal folded. -/
def Atom.foldKinds : Atom → Atom
  | condition table columns literal => condition table columns literal.foldKinds
  | other => other

/-- The expression with the literals of its atoms folded. -/
def Expression.foldKinds : Expression → Expression
  | and l r => and l.foldKinds r.foldKinds
  | or l r => or l.foldKinds r.foldKinds
  | not e => not e.foldKinds
  | atom a => atom a.foldKinds

/-- A value of an argument, folded if it is a text. -/
def Json.foldKinds : Json → Json
  | str text => str (Grammar.foldKinds text)
  | other => other

/-- The argument with its value folded. -/
def Argument.foldKinds (a : Argument) : Argument :=
  { a with value := a.value.foldKinds }

/-- The stage with its arguments folded. -/
def StageCall.foldKinds (stage : StageCall) : StageCall :=
  { stage with arguments := stage.arguments.map Argument.foldKinds }

/-- **The statement up to the kinds of closing brackets in its texts.** -/
def Statement.foldKinds (s : Statement) : Statement :=
  { s with
    expression := s.expression.foldKinds
    stages := s.stages.map StageCall.foldKinds }

/-! ### Following -/

/-- Whenever the first calculation succeeds the second one does, with a related value. -/
def Follows {α β : Type} (R : α → β → Prop) (r : Except Error α) (r' : Except Error β) : Prop :=
  ∀ x, r = .ok x → ∃ y, r' = .ok y ∧ R x y

/-- Whenever the first calculation succeeds the second one does, with the same value up to
what is forgotten. -/
abbrev FollowsUpTo {α β : Type} (forget : α → β) (r r' : Except Error α) : Prop :=
  Follows (fun x y => forget y = forget x) r r'

namespace Follows

variable {α β γ δ : Type} {R S : α → β → Prop} {r : Except Error α} {r' : Except Error β}

theorem ok {x : α} {y : β} (h : R x y) : Follows R (.ok x) (.ok y) := by
  rintro _ ⟨⟩
  exact ⟨y, rfl, h⟩

theorem error {e : Error} : Follows R (.error e) r' := by
  rintro _ ⟨⟩

theorem refl : Follows Eq r r :=
  fun x hx => ⟨x, hx, rfl⟩

theorem mono (h : Follows R r r') (hRS : ∀ x y, R x y → S x y) : Follows S r r' := by
  intro x hx
  obtain ⟨y, hy, hxy⟩ := h x hx
  exact ⟨y, hy, hRS x y hxy⟩

theorem ite {p p' : Prop} [Decidable p] [Decidable p'] {s : Except Error α}
    {s' : Except Error β} (hp : p ↔ p') (hthen : Follows R r r') (helse : Follows R s s') :
    Follows R (if p then r else s) (if p' then r' else s') := by
  by_cases h : p
  · rwa [if_pos h, if_pos (hp.mp h)]
  · rwa [if_neg h, if_neg (mt hp.mpr h)]

theorem bind {T : γ → δ → Prop} {f : α → Except Error γ} {f' : β → Except Error δ}
    (h : Follows R r r') (hf : ∀ x y, r = .ok x → R x y → Follows T (f x) (f' y)) :
    Follows T (r >>= f) (r' >>= f') := by
  intro z hz
  obtain ⟨x, hx, hz⟩ := except_bind_eq_ok.mp hz
  obtain ⟨y, hy, hxy⟩ := h x hx
  obtain ⟨w, hw, hzw⟩ := hf x y hx hxy z hz
  exact ⟨w, except_bind_eq_ok.mpr ⟨y, hy, hw⟩, hzw⟩

theorem map {T : γ → δ → Prop} {f : α → γ} {f' : β → δ} (h : Follows R r r')
    (hf : ∀ x y, R x y → T (f x) (f' y)) :
    Follows T (do return f (← r)) (do return f' (← r')) :=
  h.bind fun x y _ hxy => .ok (hf x y hxy)

/-- Items that are treated one by one. -/
theorem mapM {L : γ → δ → Prop} {xs : List γ} {ys : List δ} (h : List.Forall₂ L xs ys)
    {f : γ → Except Error α} {f' : δ → Except Error β}
    (hf : ∀ x y, L x y → Follows R (f x) (f' y)) :
    Follows (List.Forall₂ R) (xs.mapM f) (ys.mapM f') := by
  induction h with
  | nil => exact .ok .nil
  | cons hxy _ ih =>
    rw [List.mapM_cons, List.mapM_cons]
    exact (hf _ _ hxy).bind fun _ _ _ h => ih.bind fun _ _ _ hs => .ok (.cons h hs)

theorem mapM_upTo {L : γ → δ → Prop} {xs : List γ} {ys : List δ} (h : List.Forall₂ L xs ys)
    {forget : α → β} {f : γ → Except Error α} {f' : δ → Except Error α}
    (hf : ∀ x y, L x y → FollowsUpTo forget (f x) (f' y)) :
    FollowsUpTo (List.map forget) (xs.mapM f) (ys.mapM f') := by
  refine (mapM h hf).mono fun _ _ h => ?_
  induction h with
  | nil => rfl
  | cons hxy _ ih => rw [List.map_cons, List.map_cons, hxy, ih]

end Follows

namespace Grammar

variable {opened : Bool} {a b : List Char}

/-- What is read is related, and what is left behind it differs in kinds alone. -/
abbrev Leaving {α : Type} (R : α → α → Prop) (r r' : α × List Char) : Prop :=
  R r.1 r'.1 ∧ Variant false r.2 r'.2

/-- The texts are the same where closing brackets are not told apart. -/
abbrev SameFolded (x y : List Char) : Prop :=
  y.map foldKind = x.map foldKind

/-! ### Literals -/

/-- A list of quoted texts as its first item and the others. -/
theorem readItems_of_ne_nil {text : List Char} (hne : text ≠ []) :
    readItems text = (do
      let r ← readQuoted text
      let rest := (stripCaseMark r.2).2
      if !(trimStart rest).isEmpty && (trimStart rest).length == rest.length then
        fail .noBlankBetweenItems rest
      else
        let others ← readItems (trimStart rest)
        return (r.1 :: others.1, (stripCaseMark r.2).1 || others.2)) := by
  obtain ⟨c, cs, rfl⟩ := List.exists_cons_of_ne_nil hne
  rw [readItems]
  split
  · rename_i h
    rw [h]
    rfl
  · rename_i h
    rw [h, ok_bind]
    dsimp only
    split_ifs
    · rfl
    · cases readItems _ <;> rfl

namespace Variant

theorem readMode (h : Variant opened a b) {whole whole' : List Char} :
    Follows Eq (readMode a whole) (readMode b whole') := by
  unfold Grammar.readMode
  split
  · cases h
    exact .ok rfl
  · obtain ⟨_, rfl, h'⟩ := h.exists_of_cons (by decide)
    obtain ⟨rest, rfl, h''⟩ := h'.exists_of_cons (by decide)
    have hword : ∀ {word}, IsKeyword word → (_ = true ↔ _ = true) := fun hkey =>
      Bool.eq_iff_iff.mp (h''.trim.sameIgnoringCase_eq hkey).symm
    exact .ite (hword (by decide)) (.ok rfl) (.ite (hword (by decide)) (.ok rfl)
      (.ite (hword (by decide)) (.ok rfl) .error))
  · exact .error

theorem readKey (h : Variant opened a b) {whole whole' : List Char} :
    Follows (Leaving Eq) (readKey a whole) (readKey b whole') := by
  unfold Grammar.readKey
  split
  · obtain ⟨_, rfl, h'⟩ := h.exists_of_cons (by decide)
    obtain ⟨hname, hrest⟩ := h'.takeName
    exact .ite (iff_of_eq (congrArg (·.isEmpty = true) hname.symm)) .error
      (.ok ⟨congrArg (some ∘ String.ofList) hname.symm, hrest⟩)
  · rename_i hcolon
    split
    · obtain ⟨_, rfl, -⟩ := h.exists_of_cons_right (by decide)
      exact absurd rfl (hcolon _)
    · exact .ok ⟨rfl, h.loosen⟩

theorem readVariable (h : Variant opened a b) {whole whole' : List Char} :
    Follows Eq (readVariable a whole) (readVariable b whole') := by
  obtain ⟨hname, hrest⟩ := h.takeName
  rw [Grammar.readVariable, Grammar.readVariable]
  dsimp only
  rw [hname]
  refine .ite Iff.rfl .error (hrest.readKey.bind fun r r' _ hr => ?_)
  obtain ⟨key, behind⟩ := r
  obtain ⟨key', behind'⟩ := r'
  obtain ⟨rfl, hbehind⟩ := hr
  exact hbehind.trim.readMode.map fun _ _ h => by rw [h]

/-! #### Quoted texts -/

theorem readQuotedTail? (h : Variant opened a b) (escaped : Bool) :
    Option.Rel (Leaving SameFolded)
      (readQuotedTail? escaped a) (readQuotedTail? escaped b) := by
  -- one more character of the content, the same one up to its kind
  have hmap : ∀ {x y : Option (List Char × List Char)} {c d : Char}, foldKind d = foldKind c →
      Option.Rel (Leaving SameFolded) x y → Option.Rel (Leaving SameFolded)
        (x.map fun r => (c :: r.1, r.2)) (y.map fun r => (d :: r.1, r.2)) := by
    intro x y c d hcd hxy
    cases hxy with
    | none => exact .none
    | some h =>
      refine .some ⟨?_, h.2⟩
      dsimp only [SameFolded]
      rw [List.map_cons, List.map_cons, h.1, hcd]
  induction h generalizing escaped with
  | nil => exact .none
  | same c h ih =>
    rw [Grammar.readQuotedTail?, Grammar.readQuotedTail?]
    split_ifs
    · exact hmap rfl (ih _)
    · exact ih _
    · exact .some ⟨rfl, h.loosen⟩
    · exact hmap rfl (ih _)
  | closing hc hd hkeep h ih =>
    have hslash : KindBlind (· == '\\') := rfl
    have hquote : KindBlind (· == '"') := rfl
    have hfold : KindBlind foldKind := rfl
    rw [Grammar.readQuotedTail?, Grammar.readQuotedTail?, hslash.eq hd hc, hquote.eq hd hc]
    split_ifs
    · exact hmap (hfold.eq hd hc) (ih _)
    · exact ih _
    · exact .some ⟨rfl, h⟩
    · exact hmap (hfold.eq hd hc) (ih _)

theorem readQuoted (h : Variant opened a b) :
    Follows (Leaving SameFolded) (readQuoted a) (readQuoted b) := by
  have hquote : ¬IsClosing '"' := by decide
  obtain ⟨x, y, rfl, rfl, h'⟩ | ⟨ha, -⟩ := h.cases_head hquote
  · have hcontent := h'.readQuotedTail? false
    rw [Grammar.readQuoted, Grammar.readQuoted]
    generalize Grammar.readQuotedTail? false x = content at hcontent ⊢
    generalize Grammar.readQuotedTail? false y = content' at hcontent ⊢
    cases hcontent with
    | none => exact .error
    | some h => exact .ok h
  · rw [Grammar.readQuoted]
    · exact .error
    · exact ha

theorem readBound (h : Variant opened a b) :
    FollowsUpTo (Option.map foldKinds) (readBound a) (readBound b) := by
  have hfold : ∀ {x y : List Char}, y.map foldKind = x.map foldKind →
      (some (String.ofList y)).map foldKinds = (some (String.ofList x)).map foldKinds := by
    intro x y hxy
    simp [foldKinds, hxy]
  have htrim := h.trim
  unfold Grammar.readBound
  dsimp only
  generalize Text.trim a = x at htrim ⊢
  generalize Text.trim b = y at htrim ⊢
  split
  · cases htrim
    exact .ok rfl
  · obtain ⟨_, rfl, -⟩ := htrim.exists_of_cons (by decide)
    refine htrim.readQuoted.bind fun r r' _ hr => ?_
    exact .ite (by rw [hr.2.trim.isEmpty_eq]) (.ok (hfold hr.1)) .error
  · rename_i hne hquote
    split
    · cases htrim
      exact absurd rfl hne
    · obtain ⟨_, rfl, -⟩ := htrim.exists_of_cons_right (by decide)
      exact absurd rfl (hquote _)
    · exact .ok (hfold htrim.map_foldKind)

/-! #### Lists -/

theorem stripCaseMark (h : Variant opened a b) :
    (stripCaseMark b).1 = (stripCaseMark a).1 ∧
      Variant false (stripCaseMark a).2 (stripCaseMark b).2 := by
  unfold Grammar.stripCaseMark
  split
  · obtain ⟨_, rfl, h'⟩ := h.exists_of_cons_right (by decide)
    obtain ⟨_, rfl, h''⟩ := h'.exists_of_cons_right (by decide)
    exact ⟨rfl, h''⟩
  · obtain ⟨_, rfl, h'⟩ := h.exists_of_cons_right (by decide)
    obtain ⟨_, rfl, h''⟩ := h'.exists_of_cons_right (by decide)
    exact ⟨rfl, h''⟩
  · rename_i hsmall hcapital
    split
    · obtain ⟨_, rfl, h'⟩ := h.exists_of_cons (by decide)
      obtain ⟨_, rfl, -⟩ := h'.exists_of_cons (by decide)
      exact absurd rfl (hsmall _)
    · obtain ⟨_, rfl, h'⟩ := h.exists_of_cons (by decide)
      obtain ⟨_, rfl, -⟩ := h'.exists_of_cons (by decide)
      exact absurd rfl (hcapital _)
    · exact ⟨rfl, h.loosen⟩

/-- The items, by induction on how many characters are left of them. -/
theorem readItems_of_length (n : Nat) : ∀ {opened : Bool} {a b : List Char}, a.length ≤ n →
    Variant opened a b →
      Follows (fun r r' => r'.1.map (List.map foldKind) = r.1.map (List.map foldKind) ∧ r'.2 = r.2)
        (readItems a) (readItems b) := by
  induction n with
  | zero =>
    intro opened a b hlength h
    obtain rfl := List.length_eq_zero_iff.mp (Nat.le_zero.mp hlength)
    cases h
    rw [readItems_nil]
    exact .ok ⟨rfl, rfl⟩
  | succ n ih =>
    intro opened a b hlength h
    by_cases hne : a = []
    · subst hne
      cases h
      rw [readItems_nil]
      exact .ok ⟨rfl, rfl⟩
    rw [readItems_of_ne_nil hne, readItems_of_ne_nil (h.ne_nil hne)]
    refine h.readQuoted.bind fun r r' hr hrr' => ?_
    obtain ⟨hmark, hrest⟩ := hrr'.2.stripCaseMark
    have hshorter : (Text.trimStart (Grammar.stripCaseMark r.2).2).length ≤ n := by
      have h₁ := length_readQuoted hr
      have h₂ := length_stripCaseMark r.2
      have h₃ := length_trimStart_le (Grammar.stripCaseMark r.2).2
      omega
    refine .ite (by rw [hrest.trimStart.isEmpty_eq, hrest.trimStart.length_eq, hrest.length_eq])
      .error ((ih hshorter hrest.trimStart).map fun others others' hothers => ⟨?_, ?_⟩)
    · rw [List.map_cons, List.map_cons, hrr'.1, hothers.1]
    · rw [hmark, hothers.2]

theorem readItems (h : Variant opened a b) :
    Follows (fun r r' => r'.1.map (List.map foldKind) = r.1.map (List.map foldKind) ∧ r'.2 = r.2)
      (readItems a) (readItems b) :=
  readItems_of_length a.length (Nat.le_refl _) h

end Variant

theorem map_foldKind_eq_some {c : Char} (hc : ¬IsClosing c) {d : Option Char} :
    d.map foldKind = some c ↔ d = some c := by
  rcases d with _ | d
  · exact Iff.rfl
  by_cases hd : IsClosing d
  · have hfold : IsClosing (foldKind d) := by
      rcases hd with rfl | rfl <;> exact Or.inl rfl
    exact iff_of_false (fun h => hc (Option.some.inj h ▸ hfold)) fun h =>
      hc (Option.some.inj h ▸ hd)
  · rw [Option.map_some, foldKind_eq_self hd]

theorem splitWildcards_map (text : List Char) :
    splitWildcards (text.map foldKind) =
      ((splitWildcards text).1, (splitWildcards text).2.map foldKind) := by
  have hstar : ∀ c : Option Char, (c.map foldKind == some '*') = (c == some '*') := fun c => by
    rw [Bool.eq_iff_iff, beq_iff_eq, beq_iff_eq, map_foldKind_eq_some (by decide)]
  unfold splitWildcards
  dsimp only
  rw [List.head?_map, List.getLast?_map, hstar, hstar, List.length_map]
  split <;> simp [List.map_tail, List.map_dropLast]

theorem foldKinds_textLiteral (text : List Char) (caseSensitive : Bool) :
    (textLiteral text caseSensitive).foldKinds =
      textLiteral (text.map foldKind) caseSensitive := by
  simp [textLiteral, Literal.foldKinds, splitWildcards_map, foldKinds]

theorem listItem_of_head {text : List Char} (htilde : text.head? ≠ some '~')
    (hdash : text.head? ≠ some '-') : listItem text = ⟨.required, String.ofList text⟩ := by
  unfold listItem
  split
  · exact absurd rfl htilde
  · exact absurd rfl hdash
  · rfl

theorem foldKinds_listItem (text : List Char) :
    (listItem text).foldKinds = listItem (text.map foldKind) := by
  have hfold : ∀ (role : ItemRole) (rest : List Char),
      ListItem.foldKinds ⟨role, String.ofList rest⟩ =
        ⟨role, String.ofList (rest.map foldKind)⟩ := by
    simp [ListItem.foldKinds, foldKinds]
  by_cases htilde : text.head? = some '~'
  · obtain ⟨rest, rfl⟩ := List.head?_eq_some_iff.mp htilde
    exact hfold .alternative rest
  by_cases hdash : text.head? = some '-'
  · obtain ⟨rest, rfl⟩ := List.head?_eq_some_iff.mp hdash
    exact hfold .excluded rest
  rw [listItem_of_head htilde hdash, hfold, listItem_of_head]
  · rwa [Ne, List.head?_map, map_foldKind_eq_some (by decide)]
  · rwa [Ne, List.head?_map, map_foldKind_eq_some (by decide)]

namespace Variant

theorem readQuotedLiteral (h : Variant opened a b) :
    FollowsUpTo Literal.foldKinds (readQuotedLiteral a) (readQuotedLiteral b) := by
  unfold Grammar.readQuotedLiteral
  refine h.readItems.bind fun r r' _ hr => ?_
  obtain ⟨items, marked⟩ := r
  obtain ⟨items', marked'⟩ := r'
  obtain ⟨hitems, rfl⟩ := hr
  dsimp only at hitems ⊢
  split
  · obtain ⟨item', rfl, hitem⟩ := List.map_eq_singleton_iff.mp hitems
    exact .ok (by rw [foldKinds_textLiteral, foldKinds_textLiteral, hitem])
  · rename_i hsingle
    split_ifs with hmarked
    · exact .error
    split
    · obtain ⟨item, hitem, -⟩ := List.map_eq_singleton_iff.mp (hitems.symm.trans List.map_singleton)
      exact (hsingle item hitem).elim
    · have hlist : ∀ texts : List (List Char), (Literal.list (texts.map listItem)).foldKinds =
          .list ((texts.map (List.map foldKind)).map listItem) := by
        simp [Literal.foldKinds, Function.comp_def, foldKinds_listItem]
      exact .ok (by rw [hlist, hlist, hitems])

theorem readLiteral (h : Variant opened a b) :
    FollowsUpTo Literal.foldKinds (readLiteral a) (readLiteral b) := by
  have htrim := h.trim
  unfold Grammar.readLiteral
  dsimp only
  generalize Text.trim a = x at htrim ⊢
  generalize Text.trim b = y at htrim ⊢
  refine .ite (by rw [htrim.sameIgnoringCase_eq (by decide)]) (.ok rfl) (.ite ?_ (.ok rfl) ?_)
  · have hkey : IsKeyword "NOT".toList := by decide
    have hnot := htrim.stripKeyword hkey
    generalize Grammar.stripKeyword "NOT" x = r at hnot ⊢
    generalize Grammar.stripKeyword "NOT" y = r' at hnot ⊢
    cases hnot with
    | none => exact Iff.rfl
    | some h => rw [Option.any_some, Option.any_some, h.trim.sameIgnoringCase_eq (by decide)]
  have hdollar : ¬IsClosing '$' := by decide
  obtain ⟨x, y, rfl, rfl, h⟩ | ⟨hx, hy⟩ := htrim.cases_head hdollar
  · exact h.readVariable.mono fun _ _ h => by rw [h]
  have hrange := htrim.splitRangeFrom {}
  generalize Grammar.splitRangeFrom {} x = r at hrange ⊢
  generalize Grammar.splitRangeFrom {} y = r' at hrange ⊢
  cases hrange with
  | some h =>
    dsimp only
    split
    · exact (hx _ rfl).elim
    refine h.1.readBound.bind fun lower lower' _ hlower => h.2.readBound.map ?_
    intro upper upper' hupper
    rw [Literal.foldKinds, hlower, hupper, Literal.foldKinds]
  | none =>
    dsimp only
    split
    · exact (hx _ rfl).elim
    split
    · cases htrim
      exact .error
    · obtain ⟨_, rfl, -⟩ := htrim.exists_of_cons (by decide)
      exact htrim.readQuotedLiteral
    · rename_i hne hquote
      split
      · cases htrim
        exact (hne rfl).elim
      · obtain ⟨_, rfl, -⟩ := htrim.exists_of_cons_right (by decide)
        exact (hquote _ rfl).elim
      · exact .ok (by rw [foldKinds_textLiteral, foldKinds_textLiteral, htrim.map_foldKind])

end Variant

end Grammar

end TableQuery
