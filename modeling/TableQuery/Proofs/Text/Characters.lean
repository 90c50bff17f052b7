import Mathlib.Tactic.SplitIfs
import TableQuery.Text.Ascii
import TableQuery.Text.Blank

/-!
# Classes of characters

The classes that the grammar goes by, as ranges of code points, and what follows for
characters that belong to one of them: digits and the characters of names are never
blank, and lowering leaves everything but the capitals alone.
-/

namespace TableQuery

namespace Text

/-- Whether all characters of a text have a property is decided along the text, not by going
through all the characters that there are. -/
instance (priority := 2000) decidableForallMem (text : List Char) (p : Char → Prop)
    [DecidablePred p] : Decidable (∀ c ∈ text, p c) :=
  List.decidableBAll p text

variable {c d : Char}

/-! ### Ranges -/

theorem isDigit_iff : c.isDigit = true ↔ 48 ≤ c.toNat ∧ c.toNat ≤ 57 := by
  simp [Char.isDigit, UInt32.le_iff_toNat_le]

theorem isUpper_iff : c.isUpper = true ↔ 65 ≤ c.toNat ∧ c.toNat ≤ 90 := by
  change decide (c.val ≥ 'A'.val ∧ c.val ≤ 'Z'.val) = true ↔ _
  simp [UInt32.le_iff_toNat_le]

theorem isLower_iff : c.isLower = true ↔ 97 ≤ c.toNat ∧ c.toNat ≤ 122 := by
  change (decide (c.val ≥ 'a'.val) && decide (c.val ≤ 'z'.val)) = true ↔ _
  simp [UInt32.le_iff_toNat_le]

theorem isNameChar_iff : isNameChar c = true ↔
    (65 ≤ c.toNat ∧ c.toNat ≤ 90) ∨ (97 ≤ c.toNat ∧ c.toNat ≤ 122) ∨
      (48 ≤ c.toNat ∧ c.toNat ≤ 57) ∨ c.toNat = 95 := by
  have hunderscore : c = '_' ↔ c.toNat = 95 := by
    rw [← Char.toNat_inj]
    rfl
  have hclasses : isNameChar c = (((c.isUpper || c.isLower) || c.isDigit) || c == '_') := rfl
  simp only [hclasses, Bool.or_eq_true, isUpper_iff, isLower_iff, isDigit_iff, beq_iff_eq,
    hunderscore, or_assoc]

theorem isBlank_iff : isBlank c = true ↔
    (9 ≤ c.toNat ∧ c.toNat ≤ 13) ∨ c.toNat = 32 ∨ c.toNat = 133 ∨ c.toNat = 160 ∨
      c.toNat = 5760 ∨ (8192 ≤ c.toNat ∧ c.toNat ≤ 8202) ∨
      (8232 ≤ c.toNat ∧ c.toNat ≤ 8233) ∨ c.toNat = 8239 ∨ c.toNat = 8287 ∨
      c.toNat = 12288 := by
  simp only [isBlank, inRanges, blankRanges, List.any_cons, List.any_nil, Bool.or_eq_true,
    Bool.and_eq_true, decide_eq_true_eq, Bool.false_eq_true, or_false]
  omega

/-! ### Names and digits -/

theorem isBlank_of_isNameChar (h : isNameChar c = true) : isBlank c = false := by
  refine Bool.eq_false_iff.mpr fun hblank => ?_
  rw [isNameChar_iff] at h
  rw [isBlank_iff] at hblank
  omega

theorem isNameChar_of_isDigit (h : c.isDigit = true) : isNameChar c = true := by
  rw [isDigit_iff] at h
  rw [isNameChar_iff]
  omega

theorem isBlank_of_isDigit (h : c.isDigit = true) : isBlank c = false :=
  isBlank_of_isNameChar (isNameChar_of_isDigit h)

theorem isBlank_of_isAsciiBlank (h : isAsciiBlank c = true) : isBlank c = true := by
  simp only [isAsciiBlank, Bool.or_eq_true, beq_iff_eq] at h
  rcases h with (((rfl | rfl) | rfl) | rfl) | rfl <;> rfl

/-- A character of a class is none of the characters outside it. -/
theorem ne_of_isNameChar (h : isNameChar c = true) (hd : isNameChar d = false) : c ≠ d := by
  rintro rfl
  rw [hd] at h
  cases h

/-! ### Runs -/

section Runs

variable {p : Char → Bool} {run rest : List Char}

/-- A run of characters of a class is taken off the front as a whole, if the text does
not go on with the class. -/
theorem takeWhile_append_of_head? (hrun : ∀ c ∈ run, p c = true)
    (hrest : ∀ c ∈ rest.head?, p c = false) : (run ++ rest).takeWhile p = run := by
  have hstop : rest.takeWhile p = [] := by
    cases rest with
    | nil => rfl
    | cons c cs => exact List.takeWhile_cons_of_neg (by simp [hrest c rfl])
  rw [List.takeWhile_append_of_pos hrun, hstop, List.append_nil]

/-- What is left then is what stands behind the run. -/
theorem dropWhile_append_of_head? (hrun : ∀ c ∈ run, p c = true)
    (hrest : ∀ c ∈ rest.head?, p c = false) : (run ++ rest).dropWhile p = rest := by
  rw [List.dropWhile_append_of_pos hrun]
  cases rest with
  | nil => rfl
  | cons c cs => exact List.dropWhile_cons_of_neg (by simp [hrest c rfl])

end Runs

/-! ### Lowering -/

theorem toLower_of_isDigit (h : c.isDigit = true) : c.toLower = c := by
  rw [isDigit_iff] at h
  refine dif_neg fun hupper => ?_
  have := UInt32.le_iff_toNat_le.mp hupper.1
  simp only [Char.reduceVal, UInt32.reduceToNat, Char.toNat_val] at this
  omega

theorem toNat_toLower (c : Char) :
    c.toLower.toNat = if 65 ≤ c.toNat ∧ c.toNat ≤ 90 then c.toNat + 32 else c.toNat := by
  have hupper : (c.val ≥ 'A'.val ∧ c.val ≤ 'Z'.val) ↔ 65 ≤ c.toNat ∧ c.toNat ≤ 90 := by
    simp [UInt32.le_iff_toNat_le]
  by_cases h : c.val ≥ 'A'.val ∧ c.val ≤ 'Z'.val
  · rw [if_pos (hupper.mp h), show c.toLower = _ from dif_pos h]
    have hsmall := (hupper.mp h).2
    simp only [Char.toNat, UInt32.toNat_add]
    simp only [Char.toNat] at hsmall
    have : ('a'.val - 'A'.val).toNat = 32 := rfl
    omega
  · rw [if_neg fun hrange => h (hupper.mpr hrange), show c.toLower = _ from dif_neg h]

/-- Whether a character belongs to a name does not depend on its case. -/
theorem isNameChar_of_toLower_eq (h : d.toLower = c.toLower) (hc : isNameChar c = true) :
    isNameChar d = true := by
  have hnat := congrArg Char.toNat h
  rw [toNat_toLower, toNat_toLower] at hnat
  rw [isNameChar_iff] at hc ⊢
  split_ifs at hnat <;> omega

theorem sameIgnoringCase_iff {a b : List Char} :
    sameIgnoringCase a b = true ↔ lowerAscii a = lowerAscii b := by
  rw [sameIgnoringCase, beq_iff_eq]

theorem length_of_sameIgnoringCase {a b : List Char} (h : sameIgnoringCase a b = true) :
    a.length = b.length := by
  rw [← length_lowerAscii a, sameIgnoringCase_iff.mp h, length_lowerAscii]

/-- What equals a text of name characters up to case consists of name characters. -/
theorem isNameChar_of_sameIgnoringCase {a b : List Char} (h : sameIgnoringCase a b = true)
    (hb : ∀ c ∈ b, isNameChar c = true) : ∀ c ∈ a, isNameChar c = true := by
  induction a generalizing b with
  | nil => intro c hc; cases hc
  | cons d a ih =>
    cases b with
    | nil => exact absurd (length_of_sameIgnoringCase h) (by simp)
    | cons e b =>
      obtain ⟨hde, htail⟩ := List.cons.inj (sameIgnoringCase_iff.mp h)
      intro c hc
      rcases List.mem_cons.mp hc with rfl | hc
      · exact isNameChar_of_toLower_eq hde (hb e (List.mem_cons_self ..))
      · exact ih (sameIgnoringCase_iff.mpr htail) (fun c hc => hb c (List.mem_cons_of_mem _ hc))
          c hc

end Text

end TableQuery
