import TableQuery.Proofs.Number.ReadBack
import TableQuery.Value.Key

/-!
# Texts without control characters

Inside a string every control character is written as an escape, and nothing else in
the text of a value is one. So no control character stands in the serialized text of a
value (`TableQuery.Json.all_isVisible_render`), nor in its key, unless the value is
itself a string (`TableQuery.Json.all_isVisible_key`). This is what a separator
can rely on that is a control character.
-/

namespace TableQuery

namespace Text

/-- The character is no control character below the blank. -/
def isVisible (c : Char) : Bool :=
  decide (0x20 ≤ c.toNat)

theorem isVisible_of_isNumberChar {c : Char} (h : FloatLayout.isNumberChar c = true) :
    isVisible c = true := by
  simp only [FloatLayout.isNumberChar, Char.isDigit, Bool.or_eq_true, Bool.and_eq_true,
    decide_eq_true_eq, beq_iff_eq] at h
  rcases h with (((⟨hlow, -⟩ | rfl) | rfl) | rfl) | rfl
  · exact decide_eq_true (Nat.le_trans (by decide) (UInt32.le_iff_toNat_le.mp hlow))
  all_goals rfl

theorem all_isVisible_of_isNumberChar {text : List Char}
    (h : text.all FloatLayout.isNumberChar = true) : text.all isVisible = true :=
  List.all_eq_true.mpr fun c hc => isVisible_of_isNumberChar (List.all_eq_true.mp h c hc)

theorem all_isVisible_intDigits (n : Int) : (intDigits n).all isVisible = true := by
  have hdigits := all_isVisible_of_isNumberChar
    (FloatLayout.all_isNumberChar_of_isDigit (all_isDigit_natDigits n.natAbs))
  have hdash : isVisible '-' = true := rfl
  rw [intDigits]
  split
  · rw [List.all_cons, hdash, hdigits]
    rfl
  · exact hdigits

end Text

namespace Json

open Text

theorem isVisible_hexDigit : ∀ n < 16, isVisible (hexDigit n) = true := by
  decide

theorem all_isVisible_escapeChar (c : Char) : (escapeChar c).all isVisible = true := by
  rw [escapeChar]
  split_ifs with _ _ _ _ _ _ _ hcontrol
  -- the short escapes come first, then the one by number, then the character itself
  iterate 7 exact rfl
  · have hhigh := isVisible_hexDigit (c.toNat / 16) (by omega)
    have hlow := isVisible_hexDigit (c.toNat % 16) (by omega)
    simp only [List.all_cons, hhigh, hlow]
    rfl
  · simpa [isVisible] using hcontrol

theorem all_isVisible_renderString (s : String) : (renderString s).all isVisible = true := by
  have hquote : isVisible '"' = true := rfl
  have hbody : (s.toList.flatMap escapeChar).all isVisible = true := by
    rw [List.all_flatMap]
    exact List.all_eq_true.mpr fun c _ => all_isVisible_escapeChar c
  rw [renderString, List.all_append, List.all_cons, List.all_cons, hquote, hbody]
  rfl

theorem all_isVisible_renderNumber (n : Number) : (renderNumber n).all isVisible = true := by
  cases n with
  | int n => exact all_isVisible_intDigits n
  | float x => exact all_isVisible_of_isNumberChar (FloatLayout.all_isNumberChar_render _ x)

/-- Items are written as they are behind a comma, but for the comma. -/
theorem all_isVisible_renderItems {xs : List Json}
    (h : (renderMoreItems xs).all isVisible = true) : (renderItems xs).all isVisible = true := by
  cases xs with
  | nil => rfl
  | cons x xs =>
    rw [renderMoreItems, List.cons_append, List.all_cons] at h
    exact (Bool.and_eq_true_iff.mp h).2

theorem all_isVisible_renderFields {fields : List (String × Json)}
    (h : (renderMoreFields fields).all isVisible = true) :
    (renderFields fields).all isVisible = true := by
  cases fields with
  | nil => rfl
  | cons field fields =>
    rw [renderMoreFields, List.cons_append, List.cons_append, List.all_cons] at h
    rw [renderFields]
    exact (Bool.and_eq_true_iff.mp h).2

mutual

/-- **No control character is written** in the text of a value. -/
theorem all_isVisible_render : ∀ v : Json, v.render.all isVisible = true
  | .null | .bool true | .bool false => rfl
  | .num n => all_isVisible_renderNumber n
  | .str s => all_isVisible_renderString s
  | .arr items => by
    have hitems := all_isVisible_renderItems (all_isVisible_renderMoreItems items)
    rw [render, List.all_append, List.all_cons, hitems]
    rfl
  | .obj fields => by
    have hfields := all_isVisible_renderFields (all_isVisible_renderMoreFields fields)
    rw [render, List.all_append, List.all_cons, hfields]
    rfl

theorem all_isVisible_renderMoreItems : ∀ items : List Json,
    (renderMoreItems items).all isVisible = true
  | [] => rfl
  | x :: xs => by
    rw [renderMoreItems, List.all_append, List.all_cons, all_isVisible_render x,
      all_isVisible_renderMoreItems xs]
    rfl

theorem all_isVisible_renderMoreFields : ∀ fields : List (String × Json),
    (renderMoreFields fields).all isVisible = true
  | [] => rfl
  | (k, x) :: xs => by
    have hcolon : isVisible ':' = true := rfl
    simp only [renderMoreFields, List.all_append, List.all_cons, all_isVisible_renderString k,
      hcolon, all_isVisible_render x, all_isVisible_renderMoreFields xs]
    rfl

end

/-- The key of a value has no control character, unless the value is a string and has it. -/
theorem all_isVisible_key {v : Json} (h : v.str? = none) :
    v.key.toList.all isVisible = true := by
  cases v with
  | null => rfl
  | bool b => cases b <;> rfl
  | num n =>
    rw [key, String.toList_ofList]
    cases n with
    | int n => exact all_isVisible_intDigits n
    | float x =>
      rw [Number.key]
      split
      · exact all_isVisible_intDigits _
      · exact all_isVisible_of_isNumberChar (FloatLayout.all_isNumberChar_render _ x)
  | str s => cases h
  | arr items =>
    rw [show (arr items).key = (arr items).serialize from rfl, serialize,
      String.toList_ofList]
    exact all_isVisible_render _
  | obj fields =>
    rw [show (obj fields).key = (obj fields).serialize from rfl, serialize,
      String.toList_ofList]
    exact all_isVisible_render _

end Json

end TableQuery
