import TableQuery.Proofs.Number.ShortestWhole

/-!
# The key of an integer

An integer that is a double can stand in a document in three forms: as an integer, as a
double, and as the text of its digits (`TableQuery.Json.Writes`). Keys are there to
forget the form. They never confuse two integers: the key of a double is always the text
of some integer that rounds to it (`TableQuery.Number.exists_key_float`), and the
integer is known from that.

They do not always forget the form, though. A double from `2 ^ 53` on is written with its
shortest digits, and these are the digits of its value exactly if no other integer of the
same double ends in more zeros. Below `2 ^ 54` this is so, and then it fails now and
then: the double `2 ^ 63` has the key `9223372036854776000`.
-/

namespace TableQuery

/-! ### Digits -/

theorem Text.intDigits_injective {m n : Int} (h : intDigits m = intDigits n) : m = n := by
  have hread := congrArg readInt? h
  rw [readInt?_intDigits, readInt?_intDigits] at hread
  exact Option.some.inj hread

theorem Text.ofList_intDigits (n : Int) : String.ofList (intDigits n) = toString n := by
  cases n with
  | ofNat n => rfl
  | negSucc n =>
    rw [intDigits, if_pos (Int.negSucc_lt_zero n), String.ofList_cons]
    rfl

/-! ### Doubles -/

namespace FiniteDouble

variable {x : FiniteDouble} {n : Int}

theorem HasValue.negative_iff (h : x.HasValue n) (hn : n ≠ 0) : x.negative = true ↔ n < 0 := by
  have hpos : (0 : Int) < unitsPerOne := Int.natCast_pos.mpr unitsPerOne_pos
  rw [HasValue, units] at h
  split at h
  · rename_i hnegative
    refine iff_of_true hnegative (Int.lt_of_not_ge fun hge => ?_)
    have := Int.mul_nonneg hge (Int.le_of_lt hpos)
    have := Int.mul_eq_zero.mp (show n * (unitsPerOne : Int) = 0 by omega)
    omega
  · rename_i hnegative
    refine iff_of_false hnegative fun hlt => ?_
    have := Int.mul_neg_of_neg_of_pos hlt hpos
    omega

theorem HasValue.safeInt?_eq (h : x.HasValue n) :
    x.safeInt? = if n.natAbs < 2 ^ 53 then some n else none := by
  have hpos : (unitsPerOne : Int) ≠ 0 := Int.natCast_ne_zero.mpr (Nat.ne_of_gt unitsPerOne_pos)
  have hwhole : x.isWhole = true := by
    rw [isWhole, h, Int.mul_emod_left]
    rfl
  have htruncate : x.truncate = n := by
    rw [truncate, h, Int.mul_tdiv_cancel _ hpos]
  simp only [safeInt?, hwhole, htruncate, Bool.true_and, decide_eq_true_eq]

end FiniteDouble

/-- **The key of a whole double** is the text of an integer that rounds to it, and the text of its
own value exactly if no integer of the same double ends in more zeros. -/
theorem Number.exists_key_float {x : FiniteDouble} {n : Int} (h : x.HasValue n)
    (hfits : NumberToken.fitsWord n = true) :
    ∃ m, (float x).key = Text.intDigits m ∧ nearestWhole m = n ∧
      (m = n ↔ Roundest n.natAbs) := by
  rw [key, h.safeInt?_eq]
  split_ifs with hsmall
  · exact ⟨n, rfl, nearestWhole_of_le (Nat.le_of_lt hsmall),
      iff_of_true rfl (roundest_of_lt (by omega))⟩
  simp only [NumberToken.fitsWord, Bool.and_eq_true, decide_eq_true_eq] at hfits
  obtain ⟨m, hrender, hround, hiff⟩ :=
    FloatLayout.render_plain_whole h.hasMagnitude (Nat.not_lt.mp hsmall) (by omega)
  have hm : m ≠ 0 := by
    rintro rfl
    rw [roundTo53_of_lt (by decide)] at hround
    omega
  rw [hrender]
  -- the sign of the double is that of its value
  have hsign := h.negative_iff (by omega)
  cases hnegative : x.negative with
  | true =>
    have hn : n < 0 := hsign.mp hnegative
    refine ⟨-m, ?_, ?_, ?_⟩
    · have hminus : -(m : Int) < 0 := by omega
      simp only [Text.intDigits, if_pos hminus, Int.natAbs_neg, Int.natAbs_natCast, if_true]
    · rw [nearestWhole, if_pos (by omega), Int.natAbs_neg, Int.natAbs_natCast, hround]
      omega
    · rw [← hiff]
      omega
  | false =>
    have hn : ¬n < 0 := fun hlt => absurd (hsign.mpr hlt) (by simp [hnegative])
    refine ⟨m, ?_, ?_, ?_⟩
    · have hplus : ¬(m : Int) < 0 := by omega
      simp only [Text.intDigits, if_neg hplus, Int.natAbs_natCast, Bool.false_eq_true, if_false]
    · rw [nearestWhole, if_neg (by omega), Int.natAbs_natCast, hround]
      omega
    · rw [← hiff]
      omega

/-! ### The three forms -/

namespace Json

/-- The forms in which an integer that is a double stands in a document. -/
inductive Writes (n : Int) : Json → Prop where
  | integer : Writes n (.num (.int n))
  | double {x : FiniteDouble} (h : x.HasValue n) : Writes n (.num (.float x))
  | digits : Writes n (.str (toString n))

/-- Some double stands for the integer. -/
def IsDouble (n : Int) : Prop :=
  ∃ x : FiniteDouble, x.HasValue n

variable {n : Int} {v : Json}

/-- The key of any form is the text of an integer that rounds to the one meant. -/
theorem Writes.exists_key (h : Writes n v) (hdouble : IsDouble n)
    (hfits : NumberToken.fitsWord n = true) :
    ∃ m, v.key = String.ofList (Text.intDigits m) ∧ nearestWhole m = n ∧
      (Roundest n.natAbs → m = n) := by
  obtain ⟨y, hy⟩ := hdouble
  cases h with
  | integer => exact ⟨n, rfl, hy.nearestWhole_eq, fun _ => rfl⟩
  | double h =>
    obtain ⟨m, hkey, hround, hiff⟩ := Number.exists_key_float h hfits
    exact ⟨m, by rw [key, hkey], hround, hiff.mpr⟩
  | digits => exact ⟨n, by rw [key, Text.ofList_intDigits], hy.nearestWhole_eq, fun _ => rfl⟩

/-- **Keys of integers that are doubles**: the integer and its digits have one key, and so does the
double exactly if no integer of that double ends in more zeros, which is so below `2 ^ 54`;
different integers never have one key, whatever their forms. -/
theorem looseEq_writes (hfits : NumberToken.fitsWord n = true) (hdouble : IsDouble n) :
    looseEq (.num (.int n)) (.str (toString n)) = true ∧
      ((∀ v w, Writes n v → Writes n w → v.looseEq w = true) ↔ Roundest n.natAbs) ∧
      (n.natAbs < 2 ^ 54 → Roundest n.natAbs) ∧
      ∀ m : Int, NumberToken.fitsWord m = true → IsDouble m → m ≠ n →
        ∀ v w, Writes m v → Writes n w → v.key ≠ w.key := by
  refine ⟨?_, ⟨fun hall => ?_, fun hroundest v w hv hw => ?_⟩, roundest_of_lt,
    fun m hfits' hdouble' hne v w hv hw hkey => ?_⟩
  · exact beq_iff_eq.mpr (Text.ofList_intDigits n)
  · obtain ⟨x, hx⟩ := hdouble
    obtain ⟨m, hkey, -, hiff⟩ := Number.exists_key_float hx hfits
    have hloose := beq_iff_eq.mp (hall _ _ (.double hx) .integer)
    refine hiff.mp (Text.intDigits_injective ?_)
    rw [key, key, hkey] at hloose
    exact String.ofList_inj.mp hloose
  · obtain ⟨m, hkey, -, hm⟩ := hv.exists_key hdouble hfits
    obtain ⟨m', hkey', -, hm'⟩ := hw.exists_key hdouble hfits
    rw [looseEq, hkey, hkey', hm hroundest, hm' hroundest, beq_self_eq_true]
  · obtain ⟨k, hkey₁, hround, -⟩ := hv.exists_key hdouble' hfits'
    obtain ⟨k', hkey₂, hround', -⟩ := hw.exists_key hdouble hfits
    rw [hkey₁, hkey₂] at hkey
    have hk := Text.intDigits_injective (String.ofList_inj.mp hkey)
    rw [← hround, ← hround', hk] at hne
    exact hne rfl

/-- The second double beyond `2 ^ 53`, its digits, and the double before it. -/
theorem looseEq_writes_beyond :
    let x : FiniteDouble := ⟨false, 1076 * 2 ^ 52 + 1, by decide⟩
    let y : FiniteDouble := ⟨false, 1076 * 2 ^ 52, by decide⟩
    (NumberToken.fitsWord (2 ^ 53 + 2) = true ∧ x.HasValue (2 ^ 53 + 2)) ∧
      (NumberToken.fitsWord (2 ^ 53) = true ∧ y.HasValue (2 ^ 53)) ∧
      looseEq (.num (.float x)) (.str (toString (2 ^ 53 + 2 : Int))) = true ∧
      key (.num (.int (2 ^ 53))) ≠ key (.num (.float x)) := by
  intro x y
  have hx : x.HasValue (2 ^ 53 + 2) := by
    unfold FiniteDouble.HasValue
    decide +kernel
  have hy : y.HasValue (2 ^ 53) := by
    unfold FiniteDouble.HasValue
    decide +kernel
  obtain ⟨-, hforms, hsmall, hothers⟩ :=
    looseEq_writes (n := 2 ^ 53 + 2) (by decide) ⟨x, hx⟩
  refine ⟨⟨by decide, hx⟩, ⟨by decide, hy⟩, ?_, ?_⟩
  · exact hforms.mpr (hsmall (by decide)) _ _ (.double hx) .digits
  · exact hothers (2 ^ 53) (by decide) ⟨y, hy⟩ (by decide) _ _ .integer (.double hx)

/-- The forms of an integer that is a double do not always have one key: the double `2 ^ 63` has
the key `9223372036854776000`. -/
theorem not_looseEq_writes :
    ¬∀ n : Int, NumberToken.fitsWord n = true → IsDouble n →
      ∀ v w, Writes n v → Writes n w → v.looseEq w = true := by
  intro h
  let x : FiniteDouble := ⟨false, 1086 * 2 ^ 52, by decide⟩
  have hx : x.HasValue (2 ^ 63) := by
    unfold FiniteDouble.HasValue
    decide +kernel
  have hloose := h (2 ^ 63) (by decide) ⟨x, hx⟩ _ _ (.double hx) .integer
  have hkey : looseEq (.num (.float x)) (.num (.int (2 ^ 63))) = false := by decide +kernel
  rw [hkey] at hloose
  cases hloose

end Json

end TableQuery
