import TableQuery.Proofs.Grammar.Variants.Expressions

/-!
# Stages that differ in kinds

There is no bracket in a number, so the value of an argument is a number in both of two
texts that differ in kinds, and the same one, or it is a text in both.
-/

namespace TableQuery

namespace Grammar

open Text

variable {opened : Bool} {a b : List Char}

/-! ### Numbers -/

namespace Variant

theorem takeSign (h : Variant opened a b) :
    (takeSign b).1 = (takeSign a).1 ∧ Variant false (takeSign a).2 (takeSign b).2 := by
  have hminus : ¬IsClosing '-' := by decide
  have hplus : ¬IsClosing '+' := by decide
  obtain ⟨x, y, rfl, rfl, h'⟩ | ⟨ha, hb⟩ := h.cases_head hminus
  · exact ⟨rfl, h'⟩
  obtain ⟨x, y, rfl, rfl, h'⟩ | ⟨ha', hb'⟩ := h.cases_head hplus
  · exact ⟨rfl, h'⟩
  · rw [Text.takeSign, Text.takeSign]
    · exact ⟨rfl, h.loosen⟩
    all_goals assumption

theorem readInt?_eq (h : Variant opened a b) : readInt? b = readInt? a := by
  obtain ⟨hsign, hdigits⟩ := h.takeSign
  have hplain : ∀ {c : Char}, c.isDigit = true → ¬IsClosing c := by
    rintro c hc (rfl | rfl) <;> exact absurd hc (by decide)
  unfold readInt?
  dsimp only
  by_cases hall : (Text.takeSign a).2.all Char.isDigit = true
  · rw [hsign, hdigits.eq_of_left fun c hc => hplain (List.all_eq_true.mp hall c hc)]
  · have hall' : ¬(Text.takeSign b).2.all Char.isDigit = true := fun hall' => hall <| by
      rwa [← hdigits.eq_of_right fun c hc => hplain (List.all_eq_true.mp hall' c hc)]
    rw [Bool.eq_false_iff.mpr hall, Bool.eq_false_iff.mpr hall', Bool.and_false, Bool.and_false]
    rfl

theorem readExponent?_eq (h : Variant opened a b) : readExponent? b = readExponent? a := by
  cases h with
  | nil => rfl
  | same c h => rw [readExponent?, readExponent?, h.readInt?_eq]
  | closing hc hd _ h =>
    have hsmall : KindBlind (· == 'e') := rfl
    have hcapital : KindBlind (· == 'E') := rfl
    rw [readExponent?, readExponent?, h.readInt?_eq, hsmall.eq hd hc, hcapital.eq hd hc]

theorem takeDigits (h : Variant opened a b) :
    (takeDigits b).1 = (takeDigits a).1 ∧ Variant false (takeDigits a).2 (takeDigits b).2 :=
  ⟨h.takeWhile_eq (p := Char.isDigit) rfl rfl, h.dropWhile (p := Char.isDigit) rfl⟩

theorem readMagnitude?_eq (h : Variant opened a b) (negative : Bool) :
    readMagnitude? negative b = readMagnitude? negative a := by
  have hdot : ¬IsClosing '.' := by decide
  obtain ⟨hwhole, hrest⟩ := h.takeDigits
  unfold readMagnitude?
  dsimp only
  rw [hwhole]
  generalize (Text.takeDigits a).2 = s at hrest ⊢
  generalize (Text.takeDigits b).2 = t at hrest ⊢
  obtain ⟨x, y, rfl, rfl, h'⟩ | ⟨hs, ht⟩ := hrest.cases_head hdot
  · obtain ⟨hfraction, hbehind⟩ := h'.takeDigits
    change (if _ && (Text.takeDigits y).1.isEmpty then none else
        (readExponent? (Text.takeDigits y).2).map
          (Decimal.ofDigits negative _ (Text.takeDigits y).1)) =
      if _ && (Text.takeDigits x).1.isEmpty then none else
        (readExponent? (Text.takeDigits x).2).map
          (Decimal.ofDigits negative _ (Text.takeDigits x).1)
    rw [hfraction, hbehind.readExponent?_eq]
  · split
    · exact (ht _ rfl).elim
    rw [hrest.readExponent?_eq]

theorem readDouble?_eq (h : Variant opened a b) : readDouble? b = readDouble? a := by
  obtain ⟨hsign, hmagnitude⟩ := h.takeSign
  have hword : ∀ word : String, IsKeyword word.toList → lowerAscii word.toList = word.toList →
      (lowerAscii (Text.takeSign b).2 == word.toList) =
        (lowerAscii (Text.takeSign a).2 == word.toList) := by
    intro word hkey hlower
    have hsame := hmagnitude.sameIgnoringCase_eq hkey
    rwa [sameIgnoringCase, sameIgnoringCase, hlower] at hsame
  unfold readDouble?
  dsimp only
  rw [hsign, hmagnitude.readMagnitude?_eq, hword "inf" (by decide) (by decide),
    hword "infinity" (by decide) (by decide), hword "nan" (by decide) (by decide)]

/-! ### Stages -/

theorem readArgumentValue (h : Variant opened a b) :
    FollowsUpTo Json.foldKinds (readArgumentValue a) (readArgumentValue b) := by
  have hquote : ¬IsClosing '"' := by decide
  by_cases hne : a = []
  · rw [hne]
    exact .error
  obtain ⟨x, y, rfl, rfl, -⟩ | ⟨ha, hb⟩ := h.cases_head hquote
  · rw [Grammar.readArgumentValue, Grammar.readArgumentValue]
    refine h.readQuoted.bind fun r r' _ hr => .ite (by rw [hr.2.trim.isEmpty_eq]) (.ok ?_) .error
    simp [Json.foldKinds, foldKinds, hr.1]
  · rw [Grammar.readArgumentValue, Grammar.readArgumentValue]
    · refine .ite (by rw [h.sameIgnoringCase_eq (by decide)]) (.ok rfl)
        (.ite (by rw [h.sameIgnoringCase_eq (by decide)]) (.ok rfl) ?_)
      rw [h.readInt?_eq, h.readDouble?_eq]
      split
      · exact .ok rfl
      split
      · exact .ok rfl
      · exact .ok (by simp [Json.foldKinds, foldKinds, h.map_foldKind])
    · exact h.ne_nil hne
    · exact hb
    · exact hne
    · exact ha

theorem readArgument (h : Variant opened a b) :
    FollowsUpTo Argument.foldKinds (readArgument a) (readArgument b) := by
  have hequals : ¬IsClosing '=' := by decide
  obtain ⟨hname, hrest⟩ := h.takeName
  have htrim := hrest.trimStart
  have hbare : FollowsUpTo Argument.foldKinds (do return ⟨none, ← Grammar.readArgumentValue a⟩)
      (do return ⟨none, ← Grammar.readArgumentValue b⟩) :=
    h.readArgumentValue.map fun _ _ hvalue => by
      rw [Argument.foldKinds, Argument.foldKinds, hvalue]
  unfold Grammar.readArgument
  refine .ite (by rw [h.isEmpty_eq]) .error ?_
  dsimp only
  rw [hname]
  generalize Text.trimStart (Text.takeName a).2 = s at htrim ⊢
  generalize Text.trimStart (Text.takeName b).2 = t at htrim ⊢
  cases (Text.takeName a).1 with
  | nil => exact hbare
  | cons c cs =>
    obtain ⟨x, y, rfl, rfl, h'⟩ | ⟨hs, ht⟩ := htrim.cases_head hequals
    · exact h'.trim.readArgumentValue.map fun _ _ hvalue => by
        rw [Argument.foldKinds, Argument.foldKinds, hvalue]
    · split
      · exact (hs _ rfl).elim
      · split
        · exact (ht _ rfl).elim
        · exact hbare

theorem readStage (h : Variant opened a b) :
    FollowsUpTo StageCall.foldKinds (readStage a) (readStage b) := by
  have htrim := h.trim
  unfold Grammar.readStage
  generalize Text.trim a = s at htrim ⊢
  generalize Text.trim b = t at htrim ⊢
  split
  · obtain ⟨rest, rfl, h'⟩ := htrim.exists_of_cons (by decide)
    have hname := h'.takeWhile_eq (p := isStageNameChar) rfl rfl
    have hbehind := (h'.dropWhile (p := isStageNameChar) rfl).trim
    change FollowsUpTo _ _ (if _ then _ else _)
    dsimp only
    rw [hname]
    refine .ite Iff.rfl .error ?_
    generalize Text.trim (List.dropWhile isStageNameChar _) = s at hbehind ⊢
    generalize Text.trim (List.dropWhile isStageNameChar rest) = t at hbehind ⊢
    by_cases hs : s = []
    · subst hs
      cases hbehind
      exact .ok rfl
    have ht := hbehind.ne_nil hs
    have hgroup := hbehind.unwrapGroup
    split
    · exact (hs rfl).elim
    generalize Grammar.unwrapGroup '(' s = r at hgroup ⊢
    generalize Grammar.unwrapGroup '(' t = r' at hgroup ⊢
    cases hgroup with
    | none => exact .error
    | some hinner =>
      refine .ite (by rw [hinner.trim.isEmpty_eq]) (.ok rfl) ?_
      have hcomma : KindBlind (· == ',') := rfl
      have harguments := Follows.mapM_upTo (hinner.splitTop hcomma).toList
        fun _ _ h => h.trim.readArgument
      refine harguments.map fun _ _ harguments => ?_
      rw [StageCall.foldKinds, StageCall.foldKinds, harguments]
  · exact .error

end Variant

end Grammar

end TableQuery
