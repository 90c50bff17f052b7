import TableQuery.Grammar.Statement
import TableQuery.Proofs.Grammar.Words

/-!
# The kinds of closing brackets

A scan counts the brackets that are open and asks none that closes for its kind. So texts
that differ in the kinds of closing brackets alone are cut at the same places, into pieces
that differ in nothing else either.

`TableQuery.Grammar.Variant` relates such texts. It has one condition, for the one place
where the kind is looked at: behind the keyword of an aggregation there must be an empty
pair of parentheses. A parenthesis that closes the one right in front of it stays one.

Characters are looked at through classes, and none of them tells a parenthesis that closes
from a square bracket (`TableQuery.Grammar.KindBlind`).
-/

namespace TableQuery

namespace Grammar

open Text

/-! ### Texts that differ in kinds -/

/-- A character, where closing brackets are not told apart. -/
def foldKind (c : Char) : Char :=
  if c = ']' then ')' else c

/-- The second text is the first one with other kinds of some closing brackets, and an empty
pair of parentheses is left as it is. The flag says that a parenthesis was opened just
before. -/
inductive Variant : Bool → List Char → List Char → Prop
  | nil {opened : Bool} : Variant opened [] []
  | same {opened : Bool} (c : Char) {a b : List Char} :
      Variant (c == '(') a b → Variant opened (c :: a) (c :: b)
  | closing {opened : Bool} {c d : Char} {a b : List Char} : IsClosing c → IsClosing d →
      (opened = true → c = ')' → d = ')') → Variant false a b → Variant opened (c :: a) (d :: b)

/-- A function of characters that does not tell closing brackets apart. -/
def KindBlind {α : Type} (f : Char → α) : Prop :=
  f ')' = f ']'

theorem KindBlind.eq {α : Type} {f : Char → α} (hf : KindBlind f) {c d : Char}
    (hc : IsClosing c) (hd : IsClosing d) : f c = f d := by
  rcases hc with rfl | rfl <;> rcases hd with rfl | rfl
  exacts [rfl, hf, hf.symm, rfl]

theorem kindBlind_step (s : Scan) : KindBlind s.step := rfl

theorem foldKind_eq_self {c : Char} (h : ¬IsClosing c) : foldKind c = c :=
  if_neg fun hc => h (Or.inr hc)

theorem not_isClosing_of_isNameChar {c : Char} (h : isNameChar c = true) : ¬IsClosing c := by
  rintro (rfl | rfl) <;> exact absurd h (by decide)

variable {opened : Bool} {a b : List Char}

namespace Variant

/-- What stands in front is forgotten. -/
theorem loosen (h : Variant opened a b) : Variant false a b := by
  cases h with
  | nil => exact .nil
  | same c h => exact .same c h
  | closing hc hd _ h => exact .closing hc hd (fun h => Bool.noConfusion h) h

theorem map_foldKind (h : Variant opened a b) : b.map foldKind = a.map foldKind := by
  induction h with
  | nil => rfl
  | same c _ ih => rw [List.map_cons, List.map_cons, ih]
  | closing hc hd _ _ ih =>
    have hkind : KindBlind foldKind := rfl
    rw [List.map_cons, List.map_cons, ih, hkind.eq hd hc]

theorem length_eq (h : Variant opened a b) : b.length = a.length := by
  simpa using congrArg List.length h.map_foldKind

theorem isEmpty_eq (h : Variant opened a b) : b.isEmpty = a.isEmpty := by
  cases h <;> rfl

theorem ne_nil (h : Variant opened a b) (hne : a ≠ []) : b ≠ [] := by
  rintro rfl
  cases h
  exact hne rfl

/-- A character that is not a closing bracket stays in its place. -/
theorem exists_of_cons {c : Char} (hc : ¬IsClosing c) (h : Variant opened (c :: a) b) :
    ∃ b', b = c :: b' ∧ Variant (c == '(') a b' := by
  cases h with
  | same _ h => exact ⟨_, rfl, h⟩
  | closing hc' => exact absurd hc' hc

/-- A character that is not a closing bracket was there before. -/
theorem exists_of_cons_right {c : Char} (hc : ¬IsClosing c) (h : Variant opened a (c :: b)) :
    ∃ a', a = c :: a' ∧ Variant (c == '(') a' b := by
  cases h with
  | same _ h => exact ⟨_, rfl, h⟩
  | closing _ hc' => exact absurd hc' hc

/-- Such a character stands in front of both texts or of neither. -/
theorem cases_head (h : Variant opened a b) {c : Char} (hc : ¬IsClosing c) :
    (∃ a' b', a = c :: a' ∧ b = c :: b' ∧ Variant (c == '(') a' b') ∨
      ((∀ a', a = c :: a' → False) ∧ ∀ b', b = c :: b' → False) := by
  cases h with
  | nil =>
    have hnil : ∀ x : List Char, [] = c :: x → False := fun x h => List.cons_ne_nil c x h.symm
    exact .inr ⟨hnil, hnil⟩
  | @same _ d a b h =>
    by_cases hd : d = c
    · subst hd
      exact .inl ⟨a, b, rfl, rfl, h⟩
    · exact .inr ⟨fun _ h => hd (List.cons.inj h).1, fun _ h => hd (List.cons.inj h).1⟩
  | closing hd he =>
    exact .inr ⟨fun _ h => hc ((List.cons.inj h).1 ▸ hd), fun _ h => hc ((List.cons.inj h).1 ▸ he)⟩

theorem head?_eq {c : Char} (hc : ¬IsClosing c) (h : Variant opened a b) :
    (b.head? == some c) = (a.head? == some c) := by
  have hne : ∀ {d : Char}, IsClosing d → (some d == some c) = false := fun hd =>
    beq_eq_false_iff_ne.mpr fun h => hc (Option.some.inj h ▸ hd)
  cases h with
  | nil => rfl
  | same d _ => rfl
  | closing hd he => rw [List.head?_cons, List.head?_cons, hne hd, hne he]

/-- A text without closing brackets has no other variant. -/
theorem eq_of_left (h : Variant opened a b) (ha : ∀ c ∈ a, ¬IsClosing c) : b = a := by
  induction h with
  | nil => rfl
  | same c _ ih => rw [ih fun d hd => ha d (List.mem_cons_of_mem _ hd)]
  | closing hc => exact absurd hc (ha _ (List.mem_cons_self ..))

/-- A text without closing brackets is no variant of another. -/
theorem eq_of_right (h : Variant opened a b) (hb : ∀ c ∈ b, ¬IsClosing c) : b = a := by
  induction h with
  | nil => rfl
  | same c _ ih => rw [ih fun d hd => hb d (List.mem_cons_of_mem _ hd)]
  | closing _ hd => exact absurd hd (hb _ (List.mem_cons_self ..))

theorem sameIgnoringCase_eq (h : Variant opened a b) {word : List Char} (hword : IsKeyword word) :
    sameIgnoringCase b word = sameIgnoringCase a word := by
  refine Bool.eq_iff_iff.mpr ⟨fun hsame => ?_, fun hsame => ?_⟩
  · rwa [← h.eq_of_right fun c hc => not_isClosing_of_isNameChar
      (isNameChar_of_sameIgnoringCase hsame hword c hc)]
  · rwa [h.eq_of_left fun c hc => not_isClosing_of_isNameChar
      (isNameChar_of_sameIgnoringCase hsame hword c hc)]

theorem eq_of_isName (h : Variant opened a b) (ha : isName a = true) : b = a := by
  rw [isName, Bool.and_eq_true, List.all_eq_true] at ha
  exact h.eq_of_left fun c hc => not_isClosing_of_isNameChar (ha.2 c hc)

/-! ### Runs of characters and trimming -/

theorem take (n : Nat) (h : Variant opened a b) : Variant opened (a.take n) (b.take n) := by
  induction h generalizing n with
  | nil => rw [List.take_nil]; exact .nil
  | same c _ ih =>
    cases n with
    | zero => exact .nil
    | succ n => exact .same c (ih n)
  | closing hc hd hkeep _ ih =>
    cases n with
    | zero => exact .nil
    | succ n => exact .closing hc hd hkeep (ih n)

theorem drop (n : Nat) (h : Variant opened a b) : Variant false (a.drop n) (b.drop n) := by
  induction h generalizing n with
  | nil => rw [List.drop_nil]; exact .nil
  | same c h ih =>
    cases n with
    | zero => exact .same c h
    | succ n => exact ih n
  | closing hc hd hkeep h ih =>
    cases n with
    | zero => exact (closing hc hd hkeep h).loosen
    | succ n => exact ih n

section Runs

variable {p : Char → Bool} (hp : KindBlind p)

include hp

theorem takeWhile (h : Variant opened a b) : Variant opened (a.takeWhile p) (b.takeWhile p) := by
  induction h with
  | nil => exact .nil
  | same c _ ih =>
    rw [List.takeWhile_cons, List.takeWhile_cons]
    split
    · exact .same c ih
    · exact .nil
  | closing hc hd hkeep _ ih =>
    rw [List.takeWhile_cons, List.takeWhile_cons, hp.eq hd hc]
    split
    · exact .closing hc hd hkeep ih
    · exact .nil

theorem dropWhile (h : Variant opened a b) : Variant false (a.dropWhile p) (b.dropWhile p) := by
  induction h with
  | nil => exact .nil
  | same c h ih =>
    rw [List.dropWhile_cons, List.dropWhile_cons]
    split
    · exact ih
    · exact .same c h
  | closing hc hd hkeep h ih =>
    rw [List.dropWhile_cons, List.dropWhile_cons, hp.eq hd hc]
    split
    · exact ih
    · exact (closing hc hd hkeep h).loosen

end Runs

/-- A run of characters among which there are no closing brackets is the same. -/
theorem takeWhile_eq {p : Char → Bool} (hp : KindBlind p) (hparen : p ')' = false)
    (h : Variant opened a b) : b.takeWhile p = a.takeWhile p := by
  refine (h.takeWhile hp).eq_of_left fun c hc hclosing => ?_
  have htrue : p c = true := List.all_eq_true.mp List.all_takeWhile c hc
  rw [hp.eq hclosing (Or.inl rfl), hparen] at htrue
  cases htrue

/-- A name at the front is the same, and what follows it differs in kinds alone. -/
theorem takeName (h : Variant opened a b) :
    (takeName b).1 = (takeName a).1 ∧ Variant false (takeName a).2 (takeName b).2 :=
  ⟨h.takeWhile_eq (p := isNameChar) rfl rfl, h.dropWhile (p := isNameChar) rfl⟩

theorem trimStart (h : Variant opened a b) : Variant false (trimStart a) (trimStart b) :=
  h.dropWhile (p := isBlank) rfl

theorem trimEnd (h : Variant opened a b) : Variant opened (trimEnd a) (trimEnd b) := by
  -- the blanks at the end are as many
  have hlength : (Text.trimEnd b).length = (Text.trimEnd a).length := by
    have hblank : isBlank ∘ foldKind = isBlank := by
      funext c
      by_cases hc : IsClosing c
      · rcases hc with rfl | rfl <;> rfl
      · rw [Function.comp_apply, foldKind_eq_self hc]
    have hmap : ∀ text : List Char,
        Text.trimEnd (text.map foldKind) = (Text.trimEnd text).map foldKind := by
      intro text
      rw [Text.trimEnd, Text.trimEnd, ← List.map_reverse, List.dropWhile_map, hblank,
        List.map_reverse]
    simpa [hmap] using congrArg (fun text => (Text.trimEnd text).length) h.map_foldKind
  have htake : ∀ text : List Char, Text.trimEnd text = text.take (Text.trimEnd text).length := by
    intro text
    refine List.prefix_iff_eq_take.mp ?_
    rw [← List.reverse_suffix, Text.trimEnd, List.reverse_reverse]
    exact List.dropWhile_suffix _
  rw [htake a, htake b, hlength]
  exact h.take _

theorem trim (h : Variant opened a b) : Variant false (trim a) (trim b) :=
  h.trimStart.trimEnd

/-! ### Scanning -/

theorem run_eq (h : Variant opened a b) (s : Scan) : s.run b = s.run a := by
  induction h generalizing s with
  | nil => rfl
  | same c _ ih => rw [Scan.run_cons, Scan.run_cons, ih]
  | closing hc hd _ _ ih =>
    rw [Scan.run_cons, Scan.run_cons, ih, (kindBlind_step s).eq hd hc]

theorem isBalanced_eq (h : Variant opened a b) : isBalanced b = isBalanced a := by
  rw [isBalanced, isBalanced, h.run_eq]

/-- A keyword that starts in a text starts in its variants. -/
theorem startsKeyword_eq (h : Variant opened a b) {keyword : List Char}
    (hkey : IsKeyword keyword) : startsKeyword keyword b = startsKeyword keyword a := by
  have hblind : KindBlind isAsciiBlank := rfl
  have hbehind : ((b.drop keyword.length).head?.any isAsciiBlank) =
      ((a.drop keyword.length).head?.any isAsciiBlank) := by
    generalize hdrop : a.drop keyword.length = x, hdrop' : b.drop keyword.length = y
    have hxy : Variant false x y := hdrop ▸ hdrop' ▸ h.drop keyword.length
    cases hxy with
    | nil => rfl
    | same c _ => rfl
    | closing hc hd => exact hblind.eq hd hc
  rw [startsKeyword, startsKeyword, (h.take _).sameIgnoringCase_eq hkey, hbehind]

theorem stripKeyword (h : Variant opened a b) {keyword : String}
    (hkey : IsKeyword keyword.toList) :
    Option.Rel (Variant false) (stripKeyword keyword a) (stripKeyword keyword b) := by
  have hblind : KindBlind isAsciiBlank := rfl
  have hdrop := h.drop keyword.toList.length
  unfold Grammar.stripKeyword
  dsimp only
  rw [(h.take _).sameIgnoringCase_eq hkey]
  split
  · generalize a.drop keyword.toList.length = x at hdrop
    generalize b.drop keyword.toList.length = y at hdrop
    cases hdrop with
    | nil => exact .some .nil
    | same c h =>
      dsimp only
      split
      · exact .some (same c h : Variant false _ _).trimStart
      · exact .none
    | closing hc hd hkeep h =>
      dsimp only
      rw [hblind.eq hd hc]
      split
      · exact .some (closing hc hd hkeep h).trimStart
      · exact .none
  · exact .none

end Variant

/-! ### Cuts -/

/-- Pieces of texts that differ in kinds. -/
def VariantPieces (opened : Bool) (p q : Pieces) : Prop :=
  Variant opened p.1 q.1 ∧ List.Forall₂ (Variant false) p.2 q.2

namespace VariantPieces

variable {p q : Pieces}

theorem nil : VariantPieces opened ([], []) ([], []) :=
  ⟨.nil, .nil⟩

theorem grow (c : Char) (h : VariantPieces (c == '(') p q) :
    VariantPieces opened (p.grow c) (q.grow c) :=
  ⟨.same c h.1, h.2⟩

theorem grow_closing {c d : Char} (hc : IsClosing c) (hd : IsClosing d)
    (hkeep : opened = true → c = ')' → d = ')') (h : VariantPieces false p q) :
    VariantPieces opened (p.grow c) (q.grow d) :=
  ⟨.closing hc hd hkeep h.1, h.2⟩

theorem cut {before : Bool} (h : VariantPieces before p q) :
    VariantPieces opened p.cut q.cut :=
  ⟨.nil, .cons h.1.loosen h.2⟩

theorem loosen (h : VariantPieces opened p q) : VariantPieces false p q :=
  ⟨h.1.loosen, h.2⟩

theorem toList (h : VariantPieces opened p q) :
    List.Forall₂ (Variant false) p.toList q.toList :=
  .cons h.1.loosen h.2

end VariantPieces

namespace Variant

theorem splitOn {sep : Char} (hsep : KindBlind (· == sep)) (h : Variant opened a b) :
    VariantPieces opened (splitOn sep a) (splitOn sep b) := by
  induction h with
  | nil => exact .nil
  | same c _ ih =>
    rw [Grammar.splitOn, Grammar.splitOn]
    split
    · exact ih.cut
    · exact ih.grow c
  | closing hc hd hkeep _ ih =>
    rw [Grammar.splitOn, Grammar.splitOn, hsep.eq hd hc]
    split
    · exact ih.cut
    · exact ih.grow_closing hc hd hkeep

theorem splitTopFrom {sep : Char} (hsep : KindBlind (· == sep)) (h : Variant opened a b)
    (s : Scan) : VariantPieces opened (splitTopFrom sep s a) (splitTopFrom sep s b) := by
  induction h generalizing s with
  | nil => exact .nil
  | same c _ ih =>
    rw [Grammar.splitTopFrom, Grammar.splitTopFrom]
    split
    · exact (ih _).cut
    · exact (ih _).grow c
  | closing hc hd hkeep _ ih =>
    rw [Grammar.splitTopFrom, Grammar.splitTopFrom, hsep.eq hd hc, (kindBlind_step s).eq hd hc]
    split
    · exact (ih _).cut
    · exact (ih _).grow_closing hc hd hkeep

theorem splitTop {sep : Char} (hsep : KindBlind (· == sep)) (h : Variant opened a b) :
    VariantPieces opened (splitTop sep a) (splitTop sep b) :=
  h.splitTopFrom hsep {}

theorem splitPartsFrom (h : Variant opened a b) (s : Scan) :
    VariantPieces opened (splitPartsFrom s a) (splitPartsFrom s b) := by
  induction h generalizing s with
  | nil => exact .nil
  | same c _ ih =>
    rw [Grammar.splitPartsFrom, Grammar.splitPartsFrom]
    split
    · exact ((ih _).grow c : VariantPieces false _ _).cut
    · exact (ih _).grow c
  | closing hc hd hkeep _ ih =>
    have hblind : KindBlind (· == '[') := rfl
    rw [Grammar.splitPartsFrom, Grammar.splitPartsFrom, hblind.eq hd hc,
      (kindBlind_step s).eq hd hc]
    split
    · exact ((ih _).grow_closing hc hd hkeep).cut
    · exact (ih _).grow_closing hc hd hkeep

theorem splitParts (h : Variant opened a b) :
    VariantPieces opened (splitParts a) (splitParts b) :=
  h.splitPartsFrom {}

/-- Behind a keyword that is skipped nothing is known of what stands in front. -/
theorem splitKeywordFrom {keyword : List Char} (hkey : IsKeyword keyword)
    (h : Variant opened a b) (s : Scan) (skip : Nat) :
    VariantPieces (skip == 0 && opened) (splitKeywordFrom keyword s skip a)
      (splitKeywordFrom keyword s skip b) := by
  induction h generalizing s skip with
  | nil => cases skip <;> exact .nil
  | same c h ih =>
    cases skip with
    | succ n => exact (ih _ n).loosen
    | zero =>
      rw [Grammar.splitKeywordFrom, Grammar.splitKeywordFrom, h.startsKeyword_eq hkey]
      split
      · exact (ih _ _).cut
      · exact (ih _ 0).grow c
  | closing hc hd hkeep h ih =>
    have hblind : KindBlind isAsciiBlank := rfl
    cases skip with
    | succ n =>
      rw [Grammar.splitKeywordFrom, Grammar.splitKeywordFrom, (kindBlind_step s).eq hd hc]
      exact (ih _ n).loosen
    | zero =>
      rw [Grammar.splitKeywordFrom, Grammar.splitKeywordFrom, h.startsKeyword_eq hkey,
        hblind.eq hd hc, (kindBlind_step s).eq hd hc]
      split
      · exact (ih _ _).cut
      · exact (ih _ 0).grow_closing hc hd hkeep

theorem splitKeyword {keyword : String} (hkey : IsKeyword keyword.toList)
    (h : Variant opened a b) :
    VariantPieces opened (splitKeyword keyword a) (splitKeyword keyword b) :=
  h.splitKeywordFrom hkey {} 0

end Variant

/-! ### Two halves -/

/-- The text in front of a place where texts that differ in kinds are cut, and the text
behind it. -/
def VariantHalves (opened : Bool) (r r' : List Char × List Char) : Prop :=
  Variant opened r.1 r'.1 ∧ Variant false r.2 r'.2

theorem exists_of_rel_some {α β : Type} {R : α → β → Prop} {x : α} {y : Option β}
    (h : Option.Rel R (some x) y) : ∃ y', y = some y' ∧ R x y' := by
  cases h with
  | some h => exact ⟨_, rfl, h⟩

theorem eq_none_of_rel {α β : Type} {R : α → β → Prop} {y : Option β}
    (h : Option.Rel R none y) : y = none := by
  cases h
  rfl

theorem rel_mono {α β : Type} {R S : α → β → Prop} (hRS : ∀ a b, R a b → S a b)
    {x : Option α} {y : Option β} (h : Option.Rel R x y) : Option.Rel S x y := by
  cases h with
  | none => exact .none
  | some h => exact .some (hRS _ _ h)

/-- The place is found further on in both texts or in neither. -/
theorem rel_map_cons {x y : Option (List Char × List Char)} {before : Bool} {c d : Char}
    (hcons : ∀ {a b}, Variant before a b → Variant opened (c :: a) (d :: b))
    (h : Option.Rel (VariantHalves before) x y) :
    Option.Rel (VariantHalves opened) (x.map fun r => (c :: r.1, r.2))
      (y.map fun r => (d :: r.1, r.2)) := by
  cases h with
  | none => exact .none
  | some h => exact .some ⟨hcons h.1, h.2⟩

namespace Variant

theorem splitRangeFrom (h : Variant opened a b) (s : Scan) :
    Option.Rel (VariantHalves opened) (splitRangeFrom s a) (splitRangeFrom s b) := by
  have hdot : ¬IsClosing '.' := by decide
  induction h generalizing s with
  | nil => exact .none
  | same c h ih =>
    rw [Grammar.splitRangeFrom, Grammar.splitRangeFrom, h.head?_eq hdot]
    split
    · exact .some ⟨.nil, by simpa using h.drop 1⟩
    · exact rel_map_cons (.same c) (ih _)
  | closing hc hd hkeep h ih =>
    have hblind : KindBlind (· == '.') := rfl
    rw [Grammar.splitRangeFrom, Grammar.splitRangeFrom, h.head?_eq hdot, hblind.eq hd hc,
      (kindBlind_step s).eq hd hc]
    split
    · exact .some ⟨.nil, by simpa using h.drop 1⟩
    · exact rel_map_cons (.closing hc hd hkeep) (ih _)

theorem closeGroup (h : Variant opened a b) (s : Scan) :
    Option.Rel (VariantHalves opened) (closeGroup s a) (closeGroup s b) := by
  induction h generalizing s with
  | nil => exact .none
  | same c h ih =>
    rw [Grammar.closeGroup, Grammar.closeGroup]
    split
    · exact .some ⟨.nil, h.loosen⟩
    · exact rel_map_cons (.same c) (ih _)
  | closing hc hd hkeep h ih =>
    rw [Grammar.closeGroup, Grammar.closeGroup, (kindBlind_step s).eq hd hc]
    split
    · exact .some ⟨.nil, h⟩
    · exact rel_map_cons (.closing hc hd hkeep) (ih _)

/-- **Groups end at the same place**, whatever closes them. -/
theorem splitGroup (h : Variant opened a b) :
    Option.Rel (VariantHalves false) (splitGroup a) (splitGroup b) := by
  cases h with
  | nil => exact .none
  | same c h => exact rel_mono (fun _ _ h => ⟨h.1.loosen, h.2⟩) (h.closeGroup _)
  | closing hc hd _ h =>
    rw [Grammar.splitGroup, Grammar.splitGroup, (kindBlind_step _).eq hd hc]
    exact h.closeGroup _

theorem unwrapGroup (h : Variant opened a b) :
    Option.Rel (Variant false) (unwrapGroup '(' a) (unwrapGroup '(' b) := by
  have hblind : KindBlind (· == '(') := rfl
  have hopening : ¬IsClosing '(' := by decide
  have hgroup := h.splitGroup
  rw [Grammar.unwrapGroup, Grammar.unwrapGroup, h.head?_eq hopening]
  split
  · generalize Grammar.splitGroup a = x at hgroup
    generalize Grammar.splitGroup b = y at hgroup
    cases hgroup with
    | none => exact .none
    | @some r r' h =>
      obtain ⟨inside, behind⟩ := r
      obtain ⟨inside', behind'⟩ := r'
      obtain ⟨hinside, hbehind⟩ := h
      dsimp only at hinside hbehind
      cases hbehind with
      | nil => exact .some hinside
      | same => exact .none
      | closing => exact .none
  · exact .none

end Variant

end Grammar

end TableQuery
