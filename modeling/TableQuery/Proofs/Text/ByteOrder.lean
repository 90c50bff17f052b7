import Mathlib.Data.String.Basic
import Mathlib.Tactic.SplitIfs

/-!
# The order of texts is that of their bytes

Texts are compared character by character. Each character is written as one to four
bytes, and the written form of a lesser character is the lesser one whatever follows
(`TableQuery.Text.utf8EncodeChar_append_lt`): the first byte tells how many bytes there
are, and more of them for greater characters, and the bytes of one length are the digits
of a number. So texts stand in the order of their bytes (`TableQuery.Text.bytes_lt_iff`).
-/

namespace TableQuery

namespace Text

/-- The bytes of a text. -/
def bytes (text : String) : List UInt8 :=
  text.toByteArray.data.toList

theorem bytes_eq_flatMap (text : String) :
    bytes text = text.toList.flatMap String.utf8EncodeChar := by
  obtain ⟨chars, rfl⟩ := text.exists_eq_ofList
  simp [bytes, List.utf8Encode]

/-- A lesser character has the lesser bytes, whatever stands behind the two. -/
theorem utf8EncodeChar_append_lt {c d : Char} (h : c < d) (x y : List UInt8) :
    String.utf8EncodeChar c ++ x < String.utf8EncodeChar d ++ y := by
  have hlt : c.val.toNat < d.val.toNat := h
  have hd : d.val.toNat < 0x110000 := by
    rcases d.valid with hlow | ⟨-, hhigh⟩
    · exact Nat.lt_trans hlow (by decide)
    · exact hhigh
  generalize hv : c.val.toNat = v at hlt
  generalize hw : d.val.toNat = w at hlt hd
  -- the digits to the base 64 of a code point
  have hdigits : ∀ n : Nat, n / 4096 = n / 64 / 64 ∧ n / 262144 = n / 64 / 64 / 64 := fun n => by
    omega
  have hfirst : v / 64 / 64 / 64 < 8 ∧ w / 64 / 64 / 64 < 8 := by omega
  simp only [String.utf8EncodeChar, hv, hw, (hdigits _).1, (hdigits _).2]
  split_ifs <;>
    simp only [List.cons_append, List.nil_append, List.cons_lt_cons_iff, UInt8.lt_iff_toNat_lt,
      ← UInt8.toNat_inj, UInt8.toNat_ofNat'] <;>
    omega

theorem append_lt_append_iff (front x y : List UInt8) : front ++ x < front ++ y ↔ x < y := by
  induction front with
  | nil => rfl
  | cons b front ih =>
    rw [List.cons_append, List.cons_append, List.cons_lt_cons_iff, ih]
    simp

theorem flatMap_utf8EncodeChar_lt_iff : ∀ a b : List Char,
    a.flatMap String.utf8EncodeChar < b.flatMap String.utf8EncodeChar ↔ a < b
  | _, [] => by simp
  | [], d :: b => by
    obtain ⟨byte, rest, hbytes⟩ :=
      List.exists_cons_of_ne_nil (String.utf8EncodeChar_ne_nil (c := d))
    simp [hbytes]
  | c :: a, d :: b => by
    rw [List.flatMap_cons, List.flatMap_cons, List.cons_lt_cons_iff]
    rcases lt_trichotomy c d with hlt | rfl | hgt
    · simp [hlt, utf8EncodeChar_append_lt hlt]
    · simp [append_lt_append_iff, flatMap_utf8EncodeChar_lt_iff a b]
    · have hbytes := utf8EncodeChar_append_lt hgt (b.flatMap String.utf8EncodeChar)
        (a.flatMap String.utf8EncodeChar)
      simp [List.le_of_lt hbytes, lt_asymm hgt, ne_of_gt hgt]

/-- **Texts stand in the order of their bytes.** -/
theorem bytes_lt_iff {a b : String} : bytes a < bytes b ↔ a < b := by
  rw [bytes_eq_flatMap, bytes_eq_flatMap, flatMap_utf8EncodeChar_lt_iff, String.lt_iff_toList_lt]

theorem bytes_le_iff {a b : String} : bytes a ≤ bytes b ↔ a ≤ b := by
  rw [← not_lt, ← bytes_lt_iff, List.not_lt]

end Text

end TableQuery
