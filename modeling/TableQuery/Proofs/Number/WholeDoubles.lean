import Mathlib.Tactic.SplitIfs
import TableQuery.Json.Reader
import TableQuery.Proofs.Number.Rounding

/-!
# The double nearest to an integer

A double has 53 significant bits, so the double nearest to an integer is that integer
with all bits but the first 53 rounded off, and it is a whole number again. This file
says so without ranks or units: `TableQuery.nearestWhole` rounds an integer to 53 bits
in plain arithmetic, a tie going to the even neighbour, and the conversion of an integer
of 64 bits gives the finite double of just that value
(`TableQuery.Binary64.ofInt_eq_finite`).

Rounding keeps the order (`TableQuery.nearestWhole_mono`), leaves alone what a double
can hold (`TableQuery.FiniteDouble.HasValue.nearestWhole_eq`) and moves nothing by more
than half of the last bit kept (`TableQuery.nearestWhole_error`). Different integers may
end up in one double, but only from `2 ^ 53` on: every integer below has a double of its
own (`TableQuery.eq_of_nearestWhole_eq`).
-/

namespace TableQuery

/-! ### Rounding to a multiple -/

section Multiple

variable {num den : Nat}

theorem roundHalfEven_le_succ (num den : Nat) : roundHalfEven num den ≤ num / den + 1 := by
  simp only [roundHalfEven]
  split_ifs <;> omega

/-- Rounding is off by half the step at most. -/
theorem roundHalfEven_error (num : Nat) (hden : 0 < den) :
    2 * (roundHalfEven num den * den) ≤ 2 * num + den ∧
      2 * num ≤ 2 * (roundHalfEven num den * den) + den := by
  have hsplit : num / den * den + num % den = num := by
    rw [Nat.mul_comm]
    exact Nat.div_add_mod num den
  have hmod := Nat.mod_lt num hden
  simp only [roundHalfEven]
  split_ifs with hlow hhigh
  · omega
  · rw [Nat.add_mul (num / den) 1 den]
    omega
  · -- a tie, so both neighbours are half a step away
    rcases Nat.mod_two_eq_zero_or_one (num / den) with h | h
    · rw [h, Nat.add_zero]
      omega
    · rw [h, Nat.add_mul (num / den) 1 den]
      omega

theorem roundHalfEven_mono {num' : Nat} (h : num ≤ num') :
    roundHalfEven num den ≤ roundHalfEven num' den := by
  have hdiv : num / den ≤ num' / den := Nat.div_le_div_right h
  rcases Nat.lt_or_eq_of_le hdiv with hlt | heq
  · calc roundHalfEven num den ≤ num / den + 1 := roundHalfEven_le_succ num den
      _ ≤ num' / den := hlt
      _ ≤ roundHalfEven num' den := div_le_roundHalfEven num' den
  · -- the quotients are the same, so the remainders decide
    have hmod : num % den ≤ num' % den := by
      have hnum := Nat.div_add_mod num den
      have hnum' := Nat.div_add_mod num' den
      rw [heq] at hnum
      omega
    simp only [roundHalfEven, heq]
    split_ifs <;> omega

/-- What is less than half a step away is rounded to. -/
theorem roundHalfEven_eq_of_near {q : Nat} (hlow : 2 * num < 2 * (q * den) + den)
    (hhigh : 2 * (q * den) < 2 * num + den) : roundHalfEven num den = q := by
  have hden : 0 < den := by omega
  obtain ⟨herror, herror'⟩ := roundHalfEven_error num hden
  rcases Nat.lt_trichotomy (roundHalfEven num den) q with hlt | heq | hgt
  · have := Nat.mul_le_mul_right den (Nat.succ_le_of_lt hlt)
    rw [Nat.succ_mul] at this
    omega
  · exact heq
  · have := Nat.mul_le_mul_right den (Nat.succ_le_of_lt hgt)
    rw [Nat.succ_mul] at this
    omega

end Multiple

/-! ### Rounding to 53 bits -/

/-- The magnitude with its first 53 bits kept and the others rounded off. -/
def roundTo53 (n : Nat) : Nat :=
  roundHalfEven n (2 ^ (Nat.log2 n - 52)) * 2 ^ (Nat.log2 n - 52)

theorem roundTo53_of_lt {n : Nat} (h : n < 2 ^ 53) : roundTo53 n = n := by
  have hlog : Nat.log2 n - 52 = 0 := by
    rcases Nat.eq_zero_or_pos n with rfl | hpos
    · rfl
    · have := (Nat.log2_lt (Nat.ne_of_gt hpos)).mpr h
      omega
  have hone := roundHalfEven_mul_self n Nat.one_pos
  rw [Nat.mul_one] at hone
  rw [roundTo53, hlog, Nat.pow_zero, hone, Nat.mul_one]

/-- The bits that are kept are 53, or a power of two is reached. -/
theorem significand_bounds {n : Nat} (h : 2 ^ 52 ≤ n) :
    2 ^ 52 ≤ roundHalfEven n (2 ^ (Nat.log2 n - 52)) ∧
      roundHalfEven n (2 ^ (Nat.log2 n - 52)) ≤ 2 ^ 53 := by
  have hne : n ≠ 0 := by omega
  have hlog : 52 ≤ Nat.log2 n := (Nat.le_log2 hne).mpr h
  have hpos : 0 < 2 ^ (Nat.log2 n - 52) := Nat.two_pow_pos _
  -- both powers of two around the number are multiples of the step
  have hlow : 2 ^ 52 * 2 ^ (Nat.log2 n - 52) ≤ n := by
    rw [← Nat.pow_add, Nat.add_sub_cancel' hlog]
    exact Nat.log2_self_le hne
  have hhigh : n ≤ 2 ^ 53 * 2 ^ (Nat.log2 n - 52) := by
    rw [← Nat.pow_add, show 53 + (Nat.log2 n - 52) = Nat.log2 n + 1 by omega]
    exact Nat.le_of_lt Nat.lt_log2_self
  constructor
  · rw [← roundHalfEven_mul_self (2 ^ 52) hpos]
    exact roundHalfEven_mono hlow
  · rw [← roundHalfEven_mul_self (2 ^ 53) hpos]
    exact roundHalfEven_mono hhigh

/-- Rounding stays between the powers of two. -/
theorem roundTo53_bounds {n : Nat} (h : n ≠ 0) :
    2 ^ Nat.log2 n ≤ roundTo53 n ∧ roundTo53 n ≤ 2 ^ (Nat.log2 n + 1) := by
  by_cases hsmall : n < 2 ^ 53
  · rw [roundTo53_of_lt hsmall]
    exact ⟨Nat.log2_self_le h, Nat.le_of_lt Nat.lt_log2_self⟩
  have hlog : 53 ≤ Nat.log2 n := (Nat.le_log2 h).mpr (Nat.not_lt.mp hsmall)
  obtain ⟨hlow, hhigh⟩ := significand_bounds (n := n) (by omega)
  rw [roundTo53]
  constructor
  · calc 2 ^ Nat.log2 n = 2 ^ 52 * 2 ^ (Nat.log2 n - 52) := by
          rw [← Nat.pow_add, Nat.add_sub_cancel' (by omega)]
      _ ≤ _ := Nat.mul_le_mul_right _ hlow
  · calc _ ≤ 2 ^ 53 * 2 ^ (Nat.log2 n - 52) := Nat.mul_le_mul_right _ hhigh
      _ = 2 ^ (Nat.log2 n + 1) := by
          rw [← Nat.pow_add, show 53 + (Nat.log2 n - 52) = Nat.log2 n + 1 by omega]

theorem roundTo53_mono {m n : Nat} (h : m ≤ n) : roundTo53 m ≤ roundTo53 n := by
  rcases Nat.eq_zero_or_pos m with rfl | hm
  · rw [roundTo53_of_lt (by decide)]
    exact Nat.zero_le _
  have hm' : m ≠ 0 := Nat.ne_of_gt hm
  have hn' : n ≠ 0 := Nat.ne_of_gt (Nat.lt_of_lt_of_le hm h)
  have hlog : Nat.log2 m ≤ Nat.log2 n :=
    (Nat.le_log2 hn').mpr (Nat.le_trans (Nat.log2_self_le hm') h)
  rcases Nat.lt_or_eq_of_le hlog with hlt | heq
  · -- a power of two lies between them
    calc roundTo53 m ≤ 2 ^ (Nat.log2 m + 1) := (roundTo53_bounds hm').2
      _ ≤ 2 ^ Nat.log2 n := Nat.pow_le_pow_right (by decide) hlt
      _ ≤ roundTo53 n := (roundTo53_bounds hn').1
  · rw [roundTo53, roundTo53, heq]
    exact Nat.mul_le_mul_right _ (roundHalfEven_mono h)

theorem log2_mul_pow {n : Nat} (h : n ≠ 0) (k : Nat) :
    Nat.log2 (n * 2 ^ k) = Nat.log2 n + k := by
  have hne : n * 2 ^ k ≠ 0 := Nat.mul_ne_zero h (Nat.ne_of_gt (Nat.two_pow_pos k))
  refine (Nat.log2_eq_iff hne).mpr ⟨?_, ?_⟩
  · rw [Nat.pow_add]
    exact Nat.mul_le_mul_right _ (Nat.log2_self_le h)
  · rw [Nat.add_right_comm, Nat.pow_add]
    exact Nat.mul_lt_mul_of_pos_right Nat.lt_log2_self (Nat.two_pow_pos k)

/-- Rounding does not see a power of two. -/
theorem roundTo53_mul_pow (n k : Nat) : roundTo53 (n * 2 ^ k) = roundTo53 n * 2 ^ k := by
  rcases Nat.eq_zero_or_pos n with rfl | hn
  · rw [Nat.zero_mul, roundTo53_of_lt (by decide), Nat.zero_mul]
  have hlog := log2_mul_pow (Nat.ne_of_gt hn) k
  rcases Nat.lt_or_ge (Nat.log2 n) 52 with hsmall | hlarge
  · -- nothing is rounded off, as the number has fewer bits than are kept
    have hlt : n < 2 ^ 53 := Nat.lt_of_lt_of_le Nat.lt_log2_self
      (Nat.pow_le_pow_right (by decide) (by omega))
    obtain ⟨j, hj⟩ : ∃ j, k = j + (Nat.log2 (n * 2 ^ k) - 52) :=
      ⟨k - (Nat.log2 (n * 2 ^ k) - 52), by omega⟩
    have hsplit : n * 2 ^ k = n * 2 ^ j * 2 ^ (Nat.log2 (n * 2 ^ k) - 52) := by
      rw [Nat.mul_assoc, ← Nat.pow_add, ← hj]
    have hround : roundHalfEven (n * 2 ^ k) (2 ^ (Nat.log2 (n * 2 ^ k) - 52)) = n * 2 ^ j := by
      rw [← roundHalfEven_mul_self (n * 2 ^ j) (Nat.two_pow_pos (Nat.log2 (n * 2 ^ k) - 52)),
        ← hsplit]
    rw [roundTo53_of_lt hlt, roundTo53, hround, ← hsplit]
  · have hstep : 2 ^ (Nat.log2 (n * 2 ^ k) - 52) = 2 ^ (Nat.log2 n - 52) * 2 ^ k := by
      rw [← Nat.pow_add, hlog, show Nat.log2 n + k - 52 = Nat.log2 n - 52 + k by omega]
    rw [roundTo53, hstep, roundHalfEven_mul _ _ (Nat.two_pow_pos k), roundTo53, Nat.mul_assoc]

/-! ### Units and ranks -/

theorem unitsOfRank_binade {q e : Nat} (hlow : 2 ^ 52 ≤ q) (hhigh : q ≤ 2 ^ 53) :
    unitsOfRank (e * 2 ^ 52 + q) = q * 2 ^ e := by
  rw [unitsOfRank, if_neg (by omega)]
  rcases Nat.lt_or_eq_of_le hhigh with hlt | rfl
  · rw [show (e * 2 ^ 52 + q) % 2 ^ 52 = q - 2 ^ 52 by omega,
      show (e * 2 ^ 52 + q) / 2 ^ 52 - 1 = e by omega, Nat.add_sub_cancel' hlow]
  · -- the last number of a binade is the first one of the next
    rw [show (e * 2 ^ 52 + 2 ^ 53) % 2 ^ 52 = 0 by omega,
      show (e * 2 ^ 52 + 2 ^ 53) / 2 ^ 52 - 1 = 1 + e by omega, Nat.pow_add 2 1 e,
      ← Nat.mul_assoc]

/-- **The nearest rank is rounding to 53 bits**, told in units. -/
theorem unitsOfRank_nearestRank (u : Nat) : unitsOfRank (nearestRank u 1) = roundTo53 u := by
  by_cases hsmall : u < 2 ^ 52
  · rw [roundTo53_of_lt (by omega)]
    have hrank := nearestRank_unitsOfRank u
    rw [unitsOfRank, if_pos hsmall] at hrank
    rw [hrank, unitsOfRank, if_pos hsmall]
  obtain ⟨hlow, hhigh⟩ := significand_bounds (Nat.not_lt.mp hsmall)
  simp only [nearestRank, Nat.div_one, Nat.one_mul]
  rw [unitsOfRank_binade hlow hhigh, roundTo53]

theorem roundTo53_unitsOfRank (rank : Nat) : roundTo53 (unitsOfRank rank) = unitsOfRank rank := by
  rw [← unitsOfRank_nearestRank, nearestRank_unitsOfRank]

theorem nearestRank_lt {u : Nat} (h : u < 2 ^ 1139) : nearestRank u 1 < rankLimit := by
  by_cases hsmall : u < 2 ^ 52
  · have hrank := nearestRank_unitsOfRank u
    rw [unitsOfRank, if_pos hsmall] at hrank
    rw [hrank, rankLimit]
    omega
  have hlog : Nat.log2 u < 1139 := (Nat.log2_lt (by omega)).mpr h
  have hhigh := (significand_bounds (Nat.not_lt.mp hsmall)).2
  simp only [nearestRank, Nat.div_one, Nat.one_mul, rankLimit]
  omega

theorem roundTo53_mul_units (n : Nat) :
    roundTo53 (n * unitsPerOne) = roundTo53 n * unitsPerOne := by
  obtain ⟨k, hk⟩ : ∃ k, unitsPerOne = 2 ^ k := ⟨1074, rfl⟩
  rw [hk, roundTo53_mul_pow]

/-! ### Integers -/

/-- The integer rounded to 53 bits. -/
def nearestWhole (n : Int) : Int :=
  if n < 0 then -(roundTo53 n.natAbs : Int) else roundTo53 n.natAbs

/-- **The double nearest to an integer** of 64 bits is finite, and it is the integer rounded to 53
bits. -/
theorem Binary64.ofInt_eq_finite {n : Int} (h : NumberToken.fitsWord n = true) :
    ∃ x : FiniteDouble, ofInt n = .finite x ∧ x.units = nearestWhole n * unitsPerOne := by
  simp only [NumberToken.fitsWord, Bool.and_eq_true, decide_eq_true_eq] at h
  have hlt : n.natAbs * unitsPerOne < 2 ^ 1139 := by
    have hpow : 2 ^ 1139 = 2 ^ 65 * unitsPerOne := by decide +kernel
    rw [hpow]
    exact Nat.mul_lt_mul_of_pos_right (by omega) unitsPerOne_pos
  have hunits : unitsOfRank (nearestRank (n.natAbs * unitsPerOne) 1) =
      roundTo53 n.natAbs * unitsPerOne := by
    rw [unitsOfRank_nearestRank, roundTo53_mul_units]
  refine ⟨⟨decide (n < 0), _, nearestRank_lt hlt⟩, ?_, ?_⟩
  · rw [ofInt, ofQuotient, ofRank, dif_pos (nearestRank_lt hlt)]
  · simp only [FiniteDouble.units, hunits, nearestWhole, decide_eq_true_eq]
    split_ifs
    · rw [Int.natCast_mul, Int.neg_mul]
    · rw [Int.natCast_mul]

/-- **Rounding keeps the order.** -/
theorem nearestWhole_mono {m n : Int} (h : m ≤ n) : nearestWhole m ≤ nearestWhole n := by
  rw [nearestWhole, nearestWhole]
  split_ifs with hm hn hn
  · have := roundTo53_mono (m := n.natAbs) (n := m.natAbs) (by omega)
    omega
  · omega
  · omega
  · have := roundTo53_mono (m := m.natAbs) (n := n.natAbs) (by omega)
    omega

theorem natAbs_nearestWhole (n : Int) : (nearestWhole n).natAbs = roundTo53 n.natAbs := by
  rw [nearestWhole]
  split_ifs <;> omega

/-- Integers up to `2 ^ 53` are left alone. -/
theorem nearestWhole_of_le {n : Int} (h : n.natAbs ≤ 2 ^ 53) : nearestWhole n = n := by
  have hround : roundTo53 n.natAbs = n.natAbs := by
    rcases Nat.lt_or_eq_of_le h with hlt | heq
    · exact roundTo53_of_lt hlt
    · rw [heq]
      decide +kernel
  rw [nearestWhole, hround]
  split_ifs <;> omega

/-- **Below `2 ^ 53` every integer has a double of its own.** -/
theorem eq_of_nearestWhole_eq {m n : Int} (hm : m.natAbs < 2 ^ 53)
    (h : nearestWhole n = nearestWhole m) : n = m := by
  rw [nearestWhole_of_le (Nat.le_of_lt hm)] at h
  rcases Nat.lt_or_ge n.natAbs (2 ^ 53) with hn | hn
  · rwa [nearestWhole_of_le (Nat.le_of_lt hn)] at h
  · -- rounding cannot lead below `2 ^ 53`, which it leaves alone
    have hmono := roundTo53_mono hn
    rw [← natAbs_nearestWhole, h, show roundTo53 (2 ^ 53) = 2 ^ 53 by decide +kernel] at hmono
    omega

/-- Rounding moves an integer by half of the last bit kept at most. -/
theorem nearestWhole_error (n : Int) :
    2 * (nearestWhole n - n).natAbs ≤ 2 ^ (Nat.log2 n.natAbs - 52) := by
  obtain ⟨hlow, hhigh⟩ := roundHalfEven_error n.natAbs (Nat.two_pow_pos (Nat.log2 n.natAbs - 52))
  change 2 * roundTo53 n.natAbs ≤ _ at hlow
  change _ ≤ 2 * roundTo53 n.natAbs + _ at hhigh
  rw [nearestWhole]
  split_ifs <;> omega

/-! ### Doubles that stand for integers -/

namespace FiniteDouble

variable {x : FiniteDouble}

/-- The double has a magnitude that is a whole number. -/
def HasMagnitude (x : FiniteDouble) (n : Nat) : Prop :=
  unitsOfRank x.rank = n * unitsPerOne

theorem HasMagnitude.roundTo53_eq {n : Nat} (h : x.HasMagnitude n) : roundTo53 n = n := by
  have hround := roundTo53_unitsOfRank x.rank
  rw [h, roundTo53_mul_units] at hround
  exact Nat.eq_of_mul_eq_mul_right unitsPerOne_pos hround

/-- The double stands for the integer. Both zeros stand for zero. -/
def HasValue (x : FiniteDouble) (n : Int) : Prop :=
  x.units = n * unitsPerOne

theorem HasValue.hasMagnitude {n : Int} (h : x.HasValue n) : x.HasMagnitude n.natAbs := by
  have habs := congrArg Int.natAbs h
  rw [Int.natAbs_mul, Int.natAbs_natCast] at habs
  rw [HasMagnitude, ← habs, units]
  split <;> simp

/-- What a double holds is left alone. -/
theorem HasValue.nearestWhole_eq {n : Int} (h : x.HasValue n) : nearestWhole n = n := by
  rw [nearestWhole, h.hasMagnitude.roundTo53_eq]
  split <;> omega

end FiniteDouble

end TableQuery
