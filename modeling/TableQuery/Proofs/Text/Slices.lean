import Mathlib.Data.String.Basic
import TableQuery.Proofs.Text.Characters

/-!
# Slices by offsets

A text can be cut by the places where it is cut, counted in bytes. Not every pair of
numbers is such a pair of places: they have to be in order, within the text, and between
two characters, of which some are written in several bytes. `TableQuery.Text.slice?` is
the slice where they are, and nothing where they are not, so that a slice that is taken
somewhere is safe if it is something.

The offsets that cut characters off are the lengths of what is in front of them, and a
slice from one of these to another is the text in between
(`TableQuery.Text.slice?_append`); there are no other slices
(`TableQuery.Text.exists_of_slice?`).
-/

namespace TableQuery

namespace Text

open String

/-- The characters between two offsets, if these are in order, within the text, and between two
characters each. -/
def slice? (text : List Char) (start stop : Nat) : Option (List Char) :=
  if start ≤ stop ∧ Pos.Raw.IsValid (ofList text) ⟨start⟩ ∧
      Pos.Raw.IsValid (ofList text) ⟨stop⟩ then
    some (Pos.Raw.extract (ofList text) ⟨start⟩ ⟨stop⟩).toList
  else none

/-- The characters from an offset on. -/
def sliceFrom? (text : List Char) (start : Nat) : Option (List Char) :=
  slice? text start (utf8Len text)

theorem utf8Len_append_singleton (text : List Char) (c : Char) :
    utf8Len (text ++ [c]) = utf8Len text + c.utf8Size := by
  rw [utf8Len_append, utf8Len_cons, utf8Len_nil, Nat.zero_add]

theorem isValid_utf8Len (front back : List Char) :
    Pos.Raw.IsValid (ofList (front ++ back)) ⟨utf8Len front⟩ :=
  Pos.Raw.isValid_iff_exists_append.mpr
    ⟨ofList front, ofList back, ofList_append, (rawEndPos_ofList front).symm⟩

theorem exists_of_isValid {text : List Char} {offset : Nat}
    (h : Pos.Raw.IsValid (ofList text) ⟨offset⟩) :
    ∃ front back, text = front ++ back ∧ offset = utf8Len front := by
  obtain ⟨front, back, htext, hoffset⟩ := Pos.Raw.isValid_iff_exists_append.mp h
  refine ⟨front.toList, back.toList, ?_, ?_⟩
  · rw [← toList_append, ← htext, toList_ofList]
  · rw [utf8Len_toList]
    exact congrArg Pos.Raw.byteIdx hoffset

/-- **A slice is the text between what is in front of its ends.** -/
theorem slice?_append (front text back : List Char) :
    slice? (front ++ text ++ back) (utf8Len front) (utf8Len (front ++ text)) = some text := by
  have hstart := isValid_utf8Len front (text ++ back)
  have hstop := isValid_utf8Len (front ++ text) back
  rw [← List.append_assoc] at hstart
  rw [slice?, if_pos ⟨by simp, hstart, hstop⟩, utf8Len_append, extract_of_valid, toList_ofList]

theorem slice?_zero (text back : List Char) :
    slice? (text ++ back) 0 (utf8Len text) = some text :=
  slice?_append [] text back

theorem sliceFrom?_append (front text : List Char) :
    sliceFrom? (front ++ text) (utf8Len front) = some text := by
  have h := slice?_append front text []
  rwa [List.append_nil] at h

/-- The lesser of two offsets is in front of the greater one. -/
theorem exists_append_of_utf8Len_le {front back front' back' : List Char}
    (h : front ++ back = front' ++ back') (hle : utf8Len front ≤ utf8Len front') :
    ∃ text, front' = front ++ text ∧ back = text ++ back' := by
  rcases List.append_eq_append_iff.mp h with ⟨text, hfront, hback⟩ | ⟨text, hfront, hback⟩
  · exact ⟨text, hfront, hback⟩
  · -- the one in front is no longer than the other, so there is nothing between them
    have hnil : text = [] := by
      rw [hfront, utf8Len_append] at hle
      exact utf8Len_eq_zero.mp (by omega)
    subst hnil
    exact ⟨[], by simpa using hfront.symm, by simpa using hback.symm⟩

/-- **There are no other slices.** -/
theorem exists_of_slice? {text slice : List Char} {start stop : Nat}
    (h : slice? text start stop = some slice) :
    ∃ front back, text = front ++ slice ++ back ∧ start = utf8Len front ∧
      stop = utf8Len (front ++ slice) := by
  rw [slice?] at h
  split at h
  case isFalse => cases h
  case isTrue hvalid =>
    obtain ⟨hle, hstart, hstop⟩ := hvalid
    obtain ⟨front, rest, rfl, rfl⟩ := exists_of_isValid hstart
    obtain ⟨front', back, hsplit, rfl⟩ := exists_of_isValid hstop
    obtain ⟨between, rfl, rfl⟩ := exists_append_of_utf8Len_le hsplit hle
    rw [utf8Len_append, ← List.append_assoc, extract_of_valid, toList_ofList] at h
    obtain rfl := Option.some.inj h
    exact ⟨front, back, by rw [List.append_assoc], rfl, rfl⟩

theorem utf8Len_of_sliceFrom? {text rest : List Char} {start : Nat}
    (h : sliceFrom? text start = some rest) : utf8Len text = start + utf8Len rest := by
  obtain ⟨front, back, -, hstart, hend⟩ := exists_of_slice? h
  rw [hend, utf8Len_append, hstart]

theorem utf8Len_trimStart_le (text : List Char) : utf8Len (trimStart text) ≤ utf8Len text :=
  utf8Len_le_of_suffix (List.dropWhile_suffix _)

/-! ### Spans -/

/-- The offset of the first character without a property; the text begins at an offset itself. -/
def spanEnd (p : Char → Bool) (offset : Nat) : List Char → Nat
  | [] => offset
  | c :: cs => if p c then spanEnd p (offset + c.utf8Size) cs else offset

/-- The longest run of characters with a property, and what follows it. -/
def spanSlices? (p : Char → Bool) (text : List Char) : Option (List Char × List Char) := do
  let stop := spanEnd p 0 text
  return (← slice? text 0 stop, ← sliceFrom? text stop)

theorem spanEnd_eq (p : Char → Bool) (text : List Char) : ∀ offset,
    spanEnd p offset text = offset + utf8Len (text.takeWhile p) := by
  induction text with
  | nil => exact fun _ => rfl
  | cons c cs ih =>
    intro offset
    rw [spanEnd, List.takeWhile_cons]
    split
    · rw [ih, utf8Len_cons]
      omega
    · rfl

theorem spanSlices?_eq (p : Char → Bool) (text : List Char) :
    spanSlices? p text = some (text.takeWhile p, text.dropWhile p) := by
  have hfront := slice?_zero (text.takeWhile p) (text.dropWhile p)
  have hback := sliceFrom?_append (text.takeWhile p) (text.dropWhile p)
  rw [List.takeWhile_append_dropWhile] at hfront hback
  rw [spanSlices?, spanEnd_eq, Nat.zero_add, hfront, hback]
  rfl

/-! ### Characters of one byte -/

theorem utf8Size_of_isNameChar {c : Char} (h : isNameChar c = true) : c.utf8Size = 1 := by
  have hrange := isNameChar_iff.mp h
  have hval : c.val.toNat = c.toNat := rfl
  rw [Char.utf8Size_eq_one_iff, UInt32.le_iff_toNat_le, hval]
  show c.toNat ≤ 127
  omega

theorem utf8Size_of_isAsciiBlank {c : Char} (h : isAsciiBlank c = true) : c.utf8Size = 1 := by
  simp only [isAsciiBlank, Bool.or_eq_true, beq_iff_eq] at h
  rcases h with (((rfl | rfl) | rfl) | rfl) | rfl <;> rfl

theorem utf8Len_of_isNameChar {text : List Char} (h : ∀ c ∈ text, isNameChar c = true) :
    utf8Len text = text.length := by
  induction text with
  | nil => rfl
  | cons c cs ih =>
    obtain ⟨hc, hcs⟩ := List.forall_mem_cons.mp h
    rw [utf8Len_cons, ih hcs, utf8Size_of_isNameChar hc, List.length_cons]

end Text

end TableQuery
