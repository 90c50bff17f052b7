import Mathlib.Tactic.SplitIfs
import TableQuery.Number.Shortest

/-!
# Rounding decimals to doubles

A decimal denotes the nearest double, and three things about that are used
elsewhere. Rounding sees a quotient and not how it is written
(`TableQuery.nearestRank_mul`), so zeros behind the digits of a decimal and a
smaller power of ten cancel out (`TableQuery.Decimal.toBinary64_shift`). Every
finite double is its own nearest double (`TableQuery.nearestRank_unitsOfRank`).
And therefore the shortest decimal of a double, however it was searched for,
denotes that double again (`TableQuery.FiniteDouble.toBinary64_shortest`).

The thresholds of the reading of decimals make this less obvious than it sounds:
a decimal is infinite by its power of ten alone from `10 ^ 310` on, and with zeros
moved into the coefficient the same number falls below that power. That both are
infinite is a fact about rounding (`TableQuery.rankLimit_le_nearestRank`).
-/

namespace TableQuery

/-! ### Rounding a quotient -/

theorem roundHalfEven_mul (num den : Nat) {k : Nat} (hk : 0 < k) :
    roundHalfEven (num * k) (den * k) = roundHalfEven num den := by
  have hq : num * k / (den * k) = num / den := Nat.mul_div_mul_right num den hk
  have hr : num * k % (den * k) = num % den * k := Nat.mul_mod_mul_right k num den
  have hlt : 2 * (num % den * k) < den * k ↔ 2 * (num % den) < den := by
    rw [← Nat.mul_assoc, Nat.mul_lt_mul_right hk]
  have hgt : den * k < 2 * (num % den * k) ↔ den < 2 * (num % den) := by
    rw [← Nat.mul_assoc, Nat.mul_lt_mul_right hk]
  simp only [roundHalfEven, hq, hr, hlt, hgt]

theorem roundHalfEven_mul_self (n : Nat) {d : Nat} (hd : 0 < d) :
    roundHalfEven (n * d) d = n := by
  have hq : n * d / d = n := Nat.mul_div_cancel n hd
  have hr : n * d % d = 0 := Nat.mul_mod_left n d
  simp [roundHalfEven, hq, hr, hd]

theorem div_le_roundHalfEven (num den : Nat) : num / den ≤ roundHalfEven num den := by
  simp only [roundHalfEven]
  split_ifs <;> omega

/-- **Rounding sees the quotient only**, not the numbers it is written with. -/
theorem nearestRank_mul (num den : Nat) {k : Nat} (hk : 0 < k) :
    nearestRank (num * k) (den * k) = nearestRank num den := by
  have hq : num * k / (den * k) = num / den := Nat.mul_div_mul_right num den hk
  simp only [nearestRank, hq]
  rw [Nat.mul_right_comm, roundHalfEven_mul num _ hk]

/-! ### Ranks -/

theorem unitsPerOne_pos : 0 < unitsPerOne := by
  decide +kernel

/-- A magnitude of normal size, by its binade and its place in it. -/
theorem nearestRank_binade {m e : Nat} (hm : 2 ^ 52 ≤ m) (hm' : m < 2 ^ 53) :
    nearestRank (m * 2 ^ e) 1 = e * 2 ^ 52 + m := by
  have hpos : 0 < 2 ^ e := Nat.two_pow_pos e
  have hlog : Nat.log2 (m * 2 ^ e) = 52 + e := by
    have hne : m * 2 ^ e ≠ 0 := Nat.mul_ne_zero (by omega) (Nat.ne_of_gt hpos)
    refine (Nat.log2_eq_iff hne).mpr ⟨?_, ?_⟩
    · rw [Nat.pow_add]
      exact Nat.mul_le_mul_right _ hm
    · rw [show 52 + e + 1 = 53 + e by omega, Nat.pow_add]
      exact Nat.mul_lt_mul_of_pos_right hm' hpos
  simp only [nearestRank, Nat.div_one, hlog, Nat.one_mul, Nat.add_sub_cancel_left]
  rw [roundHalfEven_mul_self m hpos]

/-- **A double is the nearest double of its own magnitude.** -/
theorem nearestRank_unitsOfRank (rank : Nat) : nearestRank (unitsOfRank rank) 1 = rank := by
  by_cases hsmall : rank < 2 ^ 52
  · -- a subnormal double counts its own units
    have hlog : Nat.log2 rank - 52 = 0 := by
      rcases Nat.eq_zero_or_pos rank with rfl | hpos
      · rfl
      · have := (Nat.log2_lt (Nat.pos_iff_ne_zero.mp hpos)).mpr hsmall
        omega
    simp only [nearestRank, unitsOfRank, if_pos hsmall, Nat.div_one, hlog]
    have := roundHalfEven_mul_self rank Nat.one_pos
    simpa using this
  · -- the quotient is the binade, one too high, and the remainder the place in it
    have hmod : rank % 2 ^ 52 < 2 ^ 52 := Nat.mod_lt _ (by decide)
    have hdiv : 2 ^ 52 * (rank / 2 ^ 52) + rank % 2 ^ 52 = rank := Nat.div_add_mod rank (2 ^ 52)
    rw [unitsOfRank, if_neg hsmall, nearestRank_binade (by omega) (by omega)]
    omega

theorem unitsOfRank_injective {a b : Nat} (h : unitsOfRank a = unitsOfRank b) : a = b := by
  rw [← nearestRank_unitsOfRank a, h, nearestRank_unitsOfRank]

/-- Doubles of one value are one double, zero apart. -/
theorem FiniteDouble.eq_of_units {x y : FiniteDouble} (h : x.units = y.units)
    (hne : y.units ≠ 0) : x = y := by
  obtain ⟨negx, rankx, hx⟩ := x
  obtain ⟨negy, ranky, hy⟩ := y
  have hsign : negx = negy := by
    cases negx <;> cases negy <;> simp only [units] at h hne ⊢ <;> simp at h hne ⊢ <;> omega
  subst hsign
  have hrank : unitsOfRank rankx = unitsOfRank ranky := by
    cases negx <;> simp only [units] at h <;> simp at h <;> omega
  obtain rfl := unitsOfRank_injective hrank
  rfl

/-- Magnitudes of `2 ^ 2098` units, which is `2 ^ 1024`, and more lie beyond the finite
doubles. -/
theorem rankLimit_le_nearestRank {num den : Nat} (h : 2 ^ 2098 ≤ num / den) :
    rankLimit ≤ nearestRank num den := by
  have hne : num / den ≠ 0 := Nat.ne_of_gt (Nat.lt_of_lt_of_le (Nat.two_pow_pos _) h)
  have hlog : 2098 ≤ Nat.log2 (num / den) := (Nat.le_log2 hne).mpr h
  -- what is left after the shift still has its leading bit
  have hkept : 2 ^ 52 ≤ num / (den * 2 ^ (Nat.log2 (num / den) - 52)) := by
    rw [← Nat.div_div_eq_div_mul, Nat.le_div_iff_mul_le (Nat.two_pow_pos _), ← Nat.pow_add,
      Nat.add_sub_cancel' (by omega)]
    exact Nat.log2_self_le hne
  have hround := div_le_roundHalfEven num (den * 2 ^ (Nat.log2 (num / den) - 52))
  simp only [nearestRank, rankLimit]
  omega

namespace Binary64

theorem ofQuotient_mul (negative : Bool) (num den : Nat) {k : Nat} (hk : 0 < k) :
    ofQuotient negative (num * k) (den * k) = ofQuotient negative num den := by
  rw [ofQuotient, ofQuotient, Nat.mul_right_comm, nearestRank_mul _ _ hk]

theorem ofQuotient_eq_infinite (negative : Bool) {num den p : Nat} (hden : 0 < den)
    (hp : 310 ≤ p) (h : 10 ^ p * den ≤ num) :
    ofQuotient negative num den = .infinite negative := by
  obtain ⟨k, hk, hbase⟩ : ∃ k ≤ p, 2 ^ 2098 ≤ 10 ^ k * unitsPerOne :=
    ⟨310, hp, by decide +kernel⟩
  have hten : 10 ^ k ≤ 10 ^ p := Nat.pow_le_pow_right (by decide) hk
  have hpow : 2 ^ 2098 ≤ 10 ^ p * unitsPerOne :=
    Nat.le_trans hbase (Nat.mul_le_mul_right unitsPerOne hten)
  have hquotient : 2 ^ 2098 ≤ num * unitsPerOne / den := by
    rw [Nat.le_div_iff_mul_le hden]
    calc 2 ^ 2098 * den
        ≤ 10 ^ p * unitsPerOne * den := Nat.mul_le_mul_right _ hpow
      _ = 10 ^ p * den * unitsPerOne := Nat.mul_right_comm ..
      _ ≤ num * unitsPerOne := Nat.mul_le_mul_right _ h
  rw [ofQuotient, ofRank, dif_neg (Nat.not_lt.mpr (rankLimit_le_nearestRank hquotient))]

end Binary64

/-! ### Zeros behind the digits -/

namespace Text

theorem natDigits_mul_ten {n : Nat} (h : 0 < n) : natDigits (n * 10) = natDigits n ++ ['0'] := by
  have hdigits := Nat.toDigits_append_toDigits (b := 10) (n := n) (d := 0) (by decide) h (by decide)
  rw [natDigits, natDigits, Nat.mul_comm, ← Nat.add_zero (10 * n), ← hdigits, Nat.toDigits_zero]

theorem natDigits_mul_pow {n : Nat} (h : 0 < n) (k : Nat) :
    natDigits (n * 10 ^ k) = natDigits n ++ List.replicate k '0' := by
  induction k with
  | zero => simp
  | succ k ih =>
    have hpos : 0 < n * 10 ^ k := Nat.mul_pos h (Nat.pow_pos (by decide))
    rw [Nat.pow_succ, ← Nat.mul_assoc, natDigits_mul_ten hpos, ih, List.append_assoc,
      List.replicate_succ']

theorem lt_length_natDigits {n k : Nat} (h : 10 ^ k ≤ n) : k < (natDigits n).length := by
  rcases Nat.eq_zero_or_pos k with rfl | hk
  · exact Nat.length_toDigits_pos
  · refine Nat.lt_of_not_le fun hle => ?_
    exact Nat.not_lt.mpr h ((Nat.length_toDigits_le_iff (by decide) hk).mp hle)

theorem length_natDigits_mul_pow {n : Nat} (h : 0 < n) (k : Nat) :
    (natDigits (n * 10 ^ k)).length = (natDigits n).length + k := by
  rw [natDigits_mul_pow h, List.length_append, List.length_replicate]

end Text

namespace Decimal

variable {negative : Bool} {c k : Nat} {e : Int}

/-! The three ways in which a decimal denotes a double. -/

theorem toBinary64_of_zero : toBinary64 ⟨negative, 0, e⟩ = .ofRank negative 0 := by
  simp [toBinary64]

theorem toBinary64_of_large (hc : 0 < c) (he : 310 ≤ e) :
    toBinary64 ⟨negative, c, e⟩ = .infinite negative := by
  simp [toBinary64, Nat.ne_of_gt hc, he]

theorem toBinary64_of_nonneg (hc : 0 < c) (he : 0 ≤ e) (hlt : e < 310) :
    toBinary64 ⟨negative, c, e⟩ = .ofQuotient negative (c * 10 ^ e.toNat) 1 := by
  simp [toBinary64, Nat.ne_of_gt hc, he, Int.not_le.mpr hlt]

theorem toBinary64_of_neg (hc : 0 < c) (he : e < 0)
    (hlen : -400 ≤ e + (Text.natDigits c).length) :
    toBinary64 ⟨negative, c, e⟩ = .ofQuotient negative c (10 ^ (-e).toNat) := by
  have hlarge : ¬310 ≤ e := by omega
  have hsmall : ¬e + (Nat.toDigits 10 c).length < -400 := Int.not_lt.mpr hlen
  simp [toBinary64, Nat.ne_of_gt hc, Int.not_le.mpr he, hlarge, hsmall]

theorem toBinary64_of_small (hc : 0 < c) (hlen : e + (Text.natDigits c).length < -400) :
    toBinary64 ⟨negative, c, e⟩ = .ofRank negative 0 := by
  have hlarge : ¬310 ≤ e := by omega
  have hneg : ¬0 ≤ e := by omega
  have hsmall : e + (Nat.toDigits 10 c).length < -400 := hlen
  simp [toBinary64, Nat.ne_of_gt hc, hlarge, hneg, hsmall]

/-- **Zeros behind the digits cancel out** against the power of ten. -/
theorem toBinary64_shift (negative : Bool) (c k : Nat) (e : Int) :
    toBinary64 ⟨negative, c * 10 ^ k, e⟩ = toBinary64 ⟨negative, c, e + k⟩ := by
  have hten : ∀ n : Nat, 0 < 10 ^ n := fun n => Nat.pow_pos (by decide)
  rcases Nat.eq_zero_or_pos c with rfl | hc
  · rw [Nat.zero_mul, toBinary64_of_zero, toBinary64_of_zero]
  have hck : 0 < c * 10 ^ k := Nat.mul_pos hc (hten k)
  have hlen := Text.length_natDigits_mul_pow hc k
  by_cases hlarge : 310 ≤ e + k
  · -- infinite by its power alone on the right, perhaps by its digits on the left
    rw [toBinary64_of_large hc hlarge]
    rcases Int.lt_or_le e 310 with he | he
    · rcases Int.lt_or_le e 0 with hneg | hnonneg
      · rw [toBinary64_of_neg hck hneg (by omega)]
        refine Binary64.ofQuotient_eq_infinite (p := (e + k).toNat) _ (hten _) (by omega) ?_
        rw [← Nat.pow_add, show (e + k).toNat + (-e).toNat = k by omega]
        exact Nat.le_mul_of_pos_left _ hc
      · rw [toBinary64_of_nonneg hck hnonneg he, Nat.mul_assoc, ← Nat.pow_add]
        refine Binary64.ofQuotient_eq_infinite (p := k + e.toNat) _ Nat.one_pos (by omega) ?_
        rw [Nat.mul_one]
        exact Nat.le_mul_of_pos_left _ hc
    · rw [toBinary64_of_large hck he]
  rcases Int.lt_or_le e 0 with hneg | hnonneg
  · rcases Int.lt_or_le (e + k) 0 with hneg' | hnonneg'
    · -- two quotients, or zero on both sides, as the number of digits makes up for the zeros
      by_cases hsmall : e + k + (Text.natDigits c).length < -400
      · rw [toBinary64_of_small hc hsmall, toBinary64_of_small hck (by omega)]
      · rw [toBinary64_of_neg hc hneg' (by omega), toBinary64_of_neg hck hneg (by omega)]
        rw [show (-e).toNat = (-(e + k)).toNat + k by omega, Nat.pow_add]
        exact Binary64.ofQuotient_mul _ _ _ (hten k)
    · -- a whole number on the right, and a quotient that divides out on the left
      rw [toBinary64_of_nonneg hc hnonneg' (by omega), toBinary64_of_neg hck hneg (by omega)]
      have hsplit : c * 10 ^ k = c * 10 ^ (e + k).toNat * 10 ^ (-e).toNat := by
        rw [Nat.mul_assoc, ← Nat.pow_add, show (e + k).toNat + (-e).toNat = k by omega]
      rw [hsplit, ← Binary64.ofQuotient_mul _ (c * 10 ^ (e + k).toNat) 1 (hten (-e).toNat),
        Nat.one_mul]
  · -- whole numbers on both sides
    rw [toBinary64_of_nonneg hc (by omega) (by omega), toBinary64_of_nonneg hck hnonneg (by omega)]
    rw [Nat.mul_assoc, ← Nat.pow_add, show k + e.toNat = (e + k).toNat by omega]

end Decimal

/-! ### Shortest decimals -/

namespace FiniteDouble

theorem ofRank_rank (x : FiniteDouble) : Binary64.ofRank x.negative x.rank = .finite x := by
  rw [Binary64.ofRank, dif_pos x.rank_lt]

theorem unitsOfRank_pos {rank : Nat} (h : 0 < rank) : 0 < unitsOfRank rank := by
  rw [unitsOfRank]
  split
  · exact h
  · exact Nat.mul_pos (by omega) (Nat.two_pow_pos _)

/-- All digits of a double denote it. -/
theorem toBinary64_exact {x : FiniteDouble} (h : 0 < x.rank) :
    x.exact.toBinary64 = .finite x := by
  have hunits : 0 < unitsOfRank x.rank := unitsOfRank_pos h
  have hfive (k : Nat) : 0 < 5 ^ k := Nat.pow_pos (by decide)
  have hpos : 0 < unitsOfRank x.rank * 5 ^ 1074 := Nat.mul_pos hunits (hfive 1074)
  -- enough digits for the quotient not to be taken for zero
  have hbig {m n : Nat} (h : m ≤ n) : m ≤ unitsOfRank x.rank * n :=
    Nat.le_trans h (Nat.le_mul_of_pos_left n hunits)
  have hlen := Text.lt_length_natDigits (hbig (m := 10 ^ 673) (n := 5 ^ 1074) (by decide +kernel))
  rw [exact, Decimal.toBinary64_of_neg hpos (by decide) (by omega)]
  -- a unit is `5 ^ 1074 / 10 ^ 1074`, so the power of five cancels out
  have hten : 10 ^ (-(-1074 : Int)).toNat = unitsPerOne * 5 ^ 1074 := by decide +kernel
  rw [hten, Binary64.ofQuotient_mul _ _ _ (hfive 1074), Binary64.ofQuotient]
  have hone := nearestRank_mul (unitsOfRank x.rank) 1 unitsPerOne_pos
  rw [Nat.one_mul] at hone
  rw [hone, nearestRank_unitsOfRank, ofRank_rank]

theorem toBinary64_of_nearestHit? {ties : TieRule} {x : FiniteDouble} {exponent : Int}
    {num den : Nat} {d : Decimal} (h : nearestHit? ties x exponent num den = some d) :
    d.toBinary64 = .finite x := by
  unfold nearestHit? at h
  extract_lets low readsBack twice up first second at h
  split at h
  case isTrue hfirst =>
    obtain rfl := Option.some.inj h
    exact of_decide_eq_true hfirst
  case isFalse =>
    split at h
    case isTrue hsecond =>
      obtain rfl := Option.some.inj h
      exact of_decide_eq_true hsecond
    case isFalse => cases h

/-- **The shortest decimal of a double denotes it.** -/
theorem toBinary64_shortest (ties : TieRule) (x : FiniteDouble) :
    (x.shortest ties).toBinary64 = .finite x := by
  rw [shortest]
  split_ifs with hzero
  · rw [Decimal.toBinary64_of_zero, ← hzero, ofRank_rank]
  · -- seventeen digits are always enough, but all of them are there if they were not
    cases hsome : (List.range 17).findSome? fun n => shortestOf? ties x (n + 1) with
    | none => exact toBinary64_exact (Nat.pos_of_ne_zero hzero)
    | some d =>
      obtain ⟨n, -, hn⟩ := List.exists_of_findSome?_eq_some hsome
      exact toBinary64_of_nearestHit? hn

end FiniteDouble

end TableQuery
