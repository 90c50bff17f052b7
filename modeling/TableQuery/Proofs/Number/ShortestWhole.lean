import TableQuery.Proofs.Number.ReadBack
import TableQuery.Proofs.Number.WholeDoubles
import TableQuery.Value.Key

/-!
# The shortest decimal of a whole double

The shortest decimal of a double is searched on coarser grids first, so a whole double
gets the digits of the integer with the most zeros at its end among those that round to
it. From `2 ^ 54` on this need not be the value of the double itself: it is that value
exactly if no other integer of the same double ends in more zeros
(`TableQuery.Roundest`).

Two facts carry the proof. The double of an integer grows with the integer, so if any
multiple of a power of ten rounds to the double, one of the two multiples around its
value does (`TableQuery.FiniteDouble.nearestHit?_eq_none`). And seventeen digits are
enough: the last grid that is searched is so fine that some multiple on it rounds to the
double (`TableQuery.exists_multiple_near`).
-/

namespace TableQuery

/-! ### Integers around a double -/

/-- What is near to a number of 53 bits and not beyond a power of two rounds to it. -/
theorem roundTo53_of_near {m n : Nat} (hn : roundTo53 n = n) (hlog : Nat.log2 m = Nat.log2 n)
    (hlow : 2 * n < 2 * m + 2 ^ (Nat.log2 n - 52)) (hhigh : 2 * m < 2 * n + 2 ^ (Nat.log2 n - 52)) :
    roundTo53 m = n := by
  rw [roundTo53] at hn
  rw [roundTo53, hlog]
  generalize 2 ^ (Nat.log2 n - 52) = step at hn hlow hhigh ⊢
  rw [roundHalfEven_eq_of_near (q := roundHalfEven n step) (by omega) (by omega), hn]

/-- A number of 53 bits is a whole number of steps away from the powers of two around it. -/
theorem binade_room {n : Nat} (hn : roundTo53 n = n) (hlarge : 2 ^ 52 ≤ n) :
    (2 ^ Nat.log2 n < n → 2 ^ Nat.log2 n + 2 ^ (Nat.log2 n - 52) ≤ n) ∧
      n + 2 ^ (Nat.log2 n - 52) ≤ 2 ^ (Nat.log2 n + 1) := by
  have hlog : 52 ≤ Nat.log2 n := (Nat.le_log2 (by omega)).mpr hlarge
  have hlow : 2 ^ Nat.log2 n = 2 ^ 52 * 2 ^ (Nat.log2 n - 52) := by
    rw [← Nat.pow_add, Nat.add_sub_cancel' hlog]
  have hhigh : 2 ^ (Nat.log2 n + 1) = 2 ^ 53 * 2 ^ (Nat.log2 n - 52) := by
    rw [← Nat.pow_add, show 53 + (Nat.log2 n - 52) = Nat.log2 n + 1 by omega]
  have hlt : n < 2 ^ (Nat.log2 n + 1) := Nat.lt_log2_self
  rw [hhigh] at hlt ⊢
  rw [hlow]
  rw [roundTo53] at hn
  generalize 2 ^ (Nat.log2 n - 52) = step at hn hlt ⊢
  generalize roundHalfEven n step = q at hn
  subst hn
  constructor
  · intro h
    have := Nat.mul_le_mul_right step (Nat.lt_of_mul_lt_mul_right h)
    rwa [Nat.succ_mul] at this
  · have := Nat.mul_le_mul_right step (Nat.lt_of_mul_lt_mul_right hlt)
    rwa [Nat.succ_mul] at this

/-- **A fine grid has a number of every double on it.** Below a power of two doubles are twice as
dense, so there the grid has to be twice as fine. -/
theorem exists_multiple_near {n d : Nat} (hn : roundTo53 n = n) (hlarge : 2 ^ 52 ≤ n)
    (hpos : 0 < d) (hd : d < 2 ^ (Nat.log2 n - 52))
    (hpower : n = 2 ^ Nat.log2 n → 2 * d < 2 ^ (Nat.log2 n - 52)) :
    ∃ m, d ∣ m ∧ roundTo53 m = n := by
  have hne : n ≠ 0 := by omega
  have hlog : 52 ≤ Nat.log2 n := (Nat.le_log2 hne).mpr hlarge
  have hlow := Nat.log2_self_le hne
  have hhigh : n < 2 ^ (Nat.log2 n + 1) := Nat.lt_log2_self
  have hfloor : n / d * d + n % d = n := by
    rw [Nat.mul_comm]
    exact Nat.div_add_mod n d
  have hmod := Nat.mod_lt n hpos
  -- a candidate in the binade of the number that is near enough
  have hnear : ∀ q, 2 ^ Nat.log2 n ≤ q * d → q * d < 2 ^ (Nat.log2 n + 1) →
      2 * n < 2 * (q * d) + 2 ^ (Nat.log2 n - 52) →
        2 * (q * d) < 2 * n + 2 ^ (Nat.log2 n - 52) → ∃ m, d ∣ m ∧ roundTo53 m = n :=
    fun q hq hq' hbelow habove => ⟨q * d, Nat.dvd_mul_left d q, roundTo53_of_near hn
      ((Nat.log2_eq_iff (by have := Nat.two_pow_pos (Nat.log2 n); omega)).mpr ⟨hq, hq'⟩)
      hbelow habove⟩
  have hnext : (n / d + 1) * d = n / d * d + d := Nat.succ_mul ..
  obtain ⟨hroom, hroom'⟩ := binade_room hn hlarge
  rcases Nat.eq_or_lt_of_le hlow with hpow | hpow
  · have := hpower hpow.symm
    refine hnear (n / d + 1) ?_ ?_ ?_ ?_ <;> omega
  · have := hroom hpow
    by_cases hhalf : 2 * (n % d) ≤ d
    · refine hnear (n / d) ?_ ?_ ?_ ?_ <;> omega
    · refine hnear (n / d + 1) ?_ ?_ ?_ ?_ <;> omega

/-- So does every grid that is finer than the doubles are from some power of two on. -/
theorem exists_multiple_of_pow_lt {n d k : Nat} (hn : roundTo53 n = n) (hk : 52 ≤ k)
    (hlarge : 2 ^ k < n) (hpos : 0 < d) (hd : d < 2 ^ (k - 52)) :
    ∃ m, d ∣ m ∧ roundTo53 m = n := by
  have hne : n ≠ 0 := Nat.ne_of_gt (Nat.zero_lt_of_lt hlarge)
  have hlog : k ≤ Nat.log2 n := (Nat.le_log2 hne).mpr (Nat.le_of_lt hlarge)
  have hbase : 2 ^ 52 ≤ n :=
    Nat.le_trans (Nat.pow_le_pow_right (by decide) hk) (Nat.le_of_lt hlarge)
  refine exists_multiple_near hn hbase hpos ?_ fun hpow => ?_
  · exact Nat.lt_of_lt_of_le hd (Nat.pow_le_pow_right (by decide) (by omega))
  · -- a power of two beyond this one is at least twice as large
    rw [hpow] at hlarge
    have hnext : k + 1 ≤ Nat.log2 n := (Nat.pow_lt_pow_iff_right (by decide)).mp hlarge
    calc 2 * d < 2 ^ (k - 52 + 1) := by rw [Nat.pow_succ]; omega
      _ ≤ 2 ^ (Nat.log2 n - 52) := Nat.pow_le_pow_right (by decide) (by omega)

/-! ### The candidates of a grid -/

namespace FiniteDouble

/-- Of two neighbours that both read back the nearer one is taken, and a number that is on the grid
is the nearest to itself. -/
theorem nearestHit?_of_dvd {ties : TieRule} {x : FiniteDouble} {exponent : Int} {num den : Nat}
    (hden : 0 < den) (hdvd : den ∣ num)
    (hreads : Decimal.toBinary64 ⟨x.negative, num / den, exponent⟩ = .finite x) :
    nearestHit? ties x exponent num den = some ⟨x.negative, num / den, exponent⟩ := by
  have hmod : num % den = 0 := Nat.mod_eq_zero_of_dvd hdvd
  have htie : (2 * 0 == den) = false := beq_eq_false_iff_ne.mpr (by omega)
  have hup : decide (den < 2 * 0) = false := decide_eq_false (by omega)
  simp only [nearestHit?, hmod, htie, hup, Bool.false_and, Bool.or_self, Bool.false_eq_true,
    if_false]
  rw [if_pos (decide_eq_true hreads)]

/-- A hit is one of the grid. -/
theorem exists_of_nearestHit? {ties : TieRule} {x : FiniteDouble} {exponent : Int}
    {num den : Nat} {d : Decimal} (h : nearestHit? ties x exponent num den = some d) :
    ∃ c, d = ⟨x.negative, c, exponent⟩ := by
  unfold nearestHit? at h
  extract_lets low readsBack twice up first second at h
  split_ifs at h
  all_goals exact ⟨_, (Option.some.inj h).symm⟩

/-- Without a hit neither neighbour reads back. -/
theorem not_readsBack_of_nearestHit? {ties : TieRule} {x : FiniteDouble} {exponent : Int}
    {num den : Nat} (h : nearestHit? ties x exponent num den = none) :
    Decimal.toBinary64 ⟨x.negative, num / den, exponent⟩ ≠ .finite x ∧
      Decimal.toBinary64 ⟨x.negative, num / den + 1, exponent⟩ ≠ .finite x := by
  unfold nearestHit? at h
  extract_lets low readsBack twice up first second at h
  split_ifs at h with hfirst hsecond
  have hboth : ∀ c, c = first ∨ c = second →
      Decimal.toBinary64 ⟨x.negative, c, exponent⟩ ≠ .finite x := by
    rintro c (rfl | rfl) hreads
    · exact hfirst (decide_eq_true hreads)
    · exact hsecond (decide_eq_true hreads)
  cases hup : up with
  | true =>
    simp only [first, second, hup, if_true] at hboth
    exact ⟨hboth _ (.inr rfl), hboth _ (.inl rfl)⟩
  | false =>
    simp only [first, second, hup, Bool.false_eq_true, if_false] at hboth
    exact ⟨hboth _ (.inl rfl), hboth _ (.inr rfl)⟩

end FiniteDouble

/-! ### Whole doubles -/

namespace FiniteDouble

variable {x : FiniteDouble} {n : Nat}

theorem HasMagnitude.nearestRank_eq_iff (h : x.HasMagnitude n) (m : Nat) :
    nearestRank (m * unitsPerOne) 1 = x.rank ↔ roundTo53 m = n := by
  constructor
  · intro hrank
    have hunits := unitsOfRank_nearestRank (m * unitsPerOne)
    rw [hrank, h, roundTo53_mul_units] at hunits
    exact (Nat.eq_of_mul_eq_mul_right unitsPerOne_pos hunits).symm
  · intro hround
    refine unitsOfRank_injective ?_
    rw [unitsOfRank_nearestRank, roundTo53_mul_units, hround, h]

/-- **A whole decimal denotes the double** exactly if it rounds to its magnitude. -/
theorem HasMagnitude.toBinary64_eq_iff (h : x.HasMagnitude n) (c : Nat) {j : Nat}
    (hj : j < 310) :
    Decimal.toBinary64 ⟨x.negative, c, j⟩ = .finite x ↔ roundTo53 (c * 10 ^ j) = n := by
  have hrank : ∀ rank, Binary64.ofRank x.negative rank = .finite x ↔ rank = x.rank := by
    intro rank
    constructor
    · intro hfinite
      rw [Binary64.ofRank] at hfinite
      split at hfinite
      · rw [← Binary64.finite.inj hfinite]
      · cases hfinite
    · rintro rfl
      exact x.ofRank_rank
  rcases Nat.eq_zero_or_pos c with rfl | hc
  · rw [Decimal.toBinary64_of_zero, hrank, ← h.nearestRank_eq_iff, Nat.zero_mul, Nat.zero_mul]
    rfl
  · rw [Decimal.toBinary64_of_nonneg hc (by omega) (by omega), Binary64.ofQuotient, hrank,
      Int.toNat_natCast, h.nearestRank_eq_iff]

theorem div_units (n t : Nat) : n * unitsPerOne / (unitsPerOne * t) = n / t := by
  rw [Nat.mul_comm unitsPerOne, Nat.mul_div_mul_right _ _ unitsPerOne_pos]

/-- On a grid with the magnitude on it the hit is the magnitude. -/
theorem HasMagnitude.nearestHit?_eq_self (h : x.HasMagnitude n) {j : Nat} (hj : j < 310)
    (ties : TieRule) (hdvd : 10 ^ j ∣ n) :
    nearestHit? ties x j (n * unitsPerOne) (unitsPerOne * 10 ^ j) =
      some ⟨x.negative, n / 10 ^ j, j⟩ := by
  have hden : 0 < unitsPerOne * 10 ^ j := Nat.mul_pos unitsPerOne_pos (Nat.pow_pos (by decide))
  have hdvd' : unitsPerOne * 10 ^ j ∣ n * unitsPerOne := by
    rw [Nat.mul_comm n]
    exact Nat.mul_dvd_mul_left _ hdvd
  have hreads : Decimal.toBinary64 ⟨x.negative, n / 10 ^ j, j⟩ = .finite x := by
    rw [h.toBinary64_eq_iff _ hj, Nat.div_mul_cancel hdvd, h.roundTo53_eq]
  rw [← div_units n (10 ^ j)] at hreads ⊢
  exact nearestHit?_of_dvd hden hdvd' hreads

/-- **A grid without a hit** has no number that rounds to the magnitude: rounding keeps the order,
so a neighbour of the magnitude would round to it as well. -/
theorem HasMagnitude.not_roundTo53_of_nearestHit? (h : x.HasMagnitude n) {j : Nat}
    (hj : j < 310) {ties : TieRule}
    (hnone : nearestHit? ties x j (n * unitsPerOne) (unitsPerOne * 10 ^ j) = none) {m : Nat}
    (hm : 10 ^ j ∣ m) : roundTo53 m ≠ n := by
  obtain ⟨hbelow, habove⟩ := not_readsBack_of_nearestHit? hnone
  rw [div_units, ne_eq, h.toBinary64_eq_iff _ hj] at hbelow habove
  obtain ⟨c, rfl⟩ := hm
  have hself := h.roundTo53_eq
  rw [Nat.mul_comm]
  intro hround
  rcases Nat.lt_or_ge (n / 10 ^ j) c with hlt | hge
  · -- the multiple is above, and the next one above lies between
    have hle : n ≤ (n / 10 ^ j + 1) * 10 ^ j :=
      Nat.le_of_lt (Nat.lt_mul_of_div_lt (Nat.lt_succ_self _) (Nat.pow_pos (by decide)))
    have hmono := roundTo53_mono hle
    have hmono' := roundTo53_mono (Nat.mul_le_mul_right (10 ^ j) hlt)
    rw [Nat.succ_eq_add_one] at hmono'
    omega
  · have hle : n / 10 ^ j * 10 ^ j ≤ n := Nat.div_mul_le_self n (10 ^ j)
    have hmono := roundTo53_mono hle
    have hmono' := roundTo53_mono (Nat.mul_le_mul_right (10 ^ j) hge)
    omega

/-! ### The search -/

theorem findSome?_range_eq_some {α : Type} {f : Nat → Option α} {a : α} {n : Nat}
    (h : (List.range n).findSome? f = some a) :
    ∃ k < n, f k = some a ∧ ∀ j < k, f j = none := by
  induction n with
  | zero => cases h
  | succ n ih =>
    rw [List.range_succ, List.findSome?_append] at h
    cases hfirst : (List.range n).findSome? f with
    | some b =>
      rw [hfirst] at h
      obtain ⟨k, hk, hfound⟩ := ih (hfirst.trans h)
      exact ⟨k, Nat.lt_succ_of_lt hk, hfound⟩
    | none =>
      rw [hfirst, Option.none_or] at h
      refine ⟨n, Nat.lt_succ_self n, by simpa using h, fun j hj => ?_⟩
      exact List.findSome?_eq_none_iff.mp hfirst j (List.mem_range.mpr hj)

theorem leadingExponent_whole (hpos : 0 < n) :
    leadingExponent (n * unitsPerOne) = (Text.natDigits n).length - 1 := by
  have hlength := Text.length_natDigits_mul_pow hpos 324
  rw [Text.natDigits] at hlength
  rw [leadingExponent, Nat.mul_right_comm, Nat.mul_div_cancel _ unitsPerOne_pos, hlength]
  omega

/-- The grid that is searched for so many digits that `j` of the whole number are left out. -/
theorem HasMagnitude.shortestOf?_eq (h : x.HasMagnitude n) (hpos : 0 < n) (ties : TieRule)
    {count j : Nat} (hcount : count + j = (Text.natDigits n).length) :
    shortestOf? ties x count =
      nearestHit? ties x j (n * unitsPerOne) (unitsPerOne * 10 ^ j) := by
  have hexponent : leadingExponent (unitsOfRank x.rank) + 1 - count = (j : Int) := by
    rw [h, leadingExponent_whole hpos]
    omega
  have hnonneg : (0 : Int) ≤ j := Int.natCast_nonneg j
  simp only [shortestOf?, hexponent, scaled, if_pos hnonneg, Int.toNat_natCast]
  rw [h]

/-- The integer is on the finest grid that is searched, or a multiple near it is. -/
theorem exists_hit (hn : roundTo53 n = n) (hlarge : 2 ^ 53 ≤ n) (hlimit : n < 2 ^ 64) :
    ∃ m, 10 ^ ((Text.natDigits n).length - 17) ∣ m ∧ roundTo53 m = n := by
  by_cases hfew : (Text.natDigits n).length ≤ 17
  · rw [Nat.sub_eq_zero_of_le hfew]
    exact ⟨n, Nat.one_dvd n, hn⟩
  have hdigits : ∀ {k}, 0 < k → ((Text.natDigits n).length ≤ k ↔ n < 10 ^ k) :=
    Nat.length_toDigits_le_iff (by decide)
  have hlarge' : 10 ^ 17 ≤ n := Nat.not_lt.mp (mt (hdigits (by decide)).mpr hfew)
  rcases Nat.lt_or_ge n (10 ^ 18) with h18 | h18
  · have hlength : (Text.natDigits n).length = 18 := by
      have := (hdigits (k := 18) (by decide)).mpr h18
      omega
    rw [hlength]
    exact exists_multiple_of_pow_lt (k := 56) hn (by decide) (by omega) (by decide) (by decide)
  rcases Nat.lt_or_ge n (10 ^ 19) with h19 | h19
  · have hlength : (Text.natDigits n).length = 19 := by
      have := (hdigits (k := 19) (by decide)).mpr h19
      have := mt (hdigits (k := 18) (by decide)).mp (Nat.not_lt.mpr h18)
      omega
    rw [hlength]
    exact exists_multiple_of_pow_lt (k := 59) hn (by decide) (by omega) (by decide) (by decide)
  · have hlength : (Text.natDigits n).length = 20 := by
      have := (hdigits (k := 20) (by decide)).mpr (by omega)
      have := mt (hdigits (k := 19) (by decide)).mp (Nat.not_lt.mpr h19)
      omega
    rw [hlength]
    exact exists_multiple_of_pow_lt (k := 63) hn (by decide) (by omega) (by decide) (by decide)

/-- **The search ends at a hit**: the finest grid has one, and the grids before it have none. -/
theorem HasMagnitude.exists_search (h : x.HasMagnitude n) (hlarge : 2 ^ 53 ≤ n)
    (hlimit : n < 2 ^ 64) (ties : TieRule) :
    ∃ j < (Text.natDigits n).length,
      nearestHit? ties x j (n * unitsPerOne) (unitsPerOne * 10 ^ j) = some (x.shortest ties) ∧
        ∀ i, j < i → i < (Text.natDigits n).length →
          nearestHit? ties x i (n * unitsPerOne) (unitsPerOne * 10 ^ i) = none := by
  have hpos : 0 < n := by omega
  have hlength : (Text.natDigits n).length ≤ 20 :=
    (Nat.length_toDigits_le_iff (by decide) (by decide)).mpr (by omega)
  have hlength' := Text.lt_length_natDigits (n := n) (k := 15) (by omega)
  have hrank : x.rank ≠ 0 := by
    intro hzero
    rw [HasMagnitude, hzero] at h
    have := Nat.mul_pos hpos unitsPerOne_pos
    rw [← h] at this
    cases this
  have hgrid : ∀ {k j}, k + 1 + j = (Text.natDigits n).length →
      shortestOf? ties x (k + 1) = nearestHit? ties x j (n * unitsPerOne) (unitsPerOne * 10 ^ j) :=
    fun hk => h.shortestOf?_eq hpos ties hk
  have hlast : ∀ k, k + 1 + ((Text.natDigits n).length - 17) = (Text.natDigits n).length →
      shortestOf? ties x (k + 1) ≠ none := by
    intro k hk hnone
    obtain ⟨m, hm, hround⟩ := exists_hit h.roundTo53_eq hlarge hlimit
    rw [hgrid hk] at hnone
    exact h.not_roundTo53_of_nearestHit? (by omega) hnone hm hround
  rw [shortest, if_neg hrank]
  cases hsearch : (List.range 17).findSome? fun k => shortestOf? ties x (k + 1) with
  | none =>
    refine absurd ?_ (hlast (min 17 (Text.natDigits n).length - 1) (by omega))
    exact List.findSome?_eq_none_iff.mp hsearch _ (List.mem_range.mpr (by omega))
  | some d =>
    obtain ⟨k, hk, hfound, hfirst⟩ := findSome?_range_eq_some hsearch
    have hkle : k + 1 ≤ (Text.natDigits n).length := by
      refine Nat.le_of_not_lt fun hlt => ?_
      exact hlast ((Text.natDigits n).length - 1) (by omega) (hfirst _ (by omega))
    obtain ⟨j, hj⟩ := Nat.exists_eq_add_of_le hkle
    refine ⟨j, by omega, (hgrid hj.symm).symm.trans hfound, fun i hi hlt => ?_⟩
    obtain ⟨k', hk'⟩ : ∃ k', k' + 1 + i = (Text.natDigits n).length :=
      ⟨(Text.natDigits n).length - i - 1, by omega⟩
    rw [← hgrid hk']
    exact hfirst k' (by omega)

/-- **The shortest decimal of a whole double** lies on the coarsest grid that has a number rounding
to the magnitude, and it is the magnitude itself if that is on the grid. -/
theorem HasMagnitude.exists_shortest (h : x.HasMagnitude n) (hlarge : 2 ^ 53 ≤ n)
    (hlimit : n < 2 ^ 64) (ties : TieRule) :
    ∃ c j : Nat, x.shortest ties = ⟨x.negative, c, j⟩ ∧ j < (Text.natDigits n).length ∧
      roundTo53 (c * 10 ^ j) = n ∧ (10 ^ j ∣ n → c * 10 ^ j = n) ∧
      ∀ i m, j < i → i < (Text.natDigits n).length → 10 ^ i ∣ m → roundTo53 m ≠ n := by
  have hlength : (Text.natDigits n).length ≤ 20 :=
    (Nat.length_toDigits_le_iff (by decide) (by decide)).mpr (by omega)
  obtain ⟨j, hj, hfound, hcoarser⟩ := h.exists_search hlarge hlimit ties
  obtain ⟨c, hc⟩ := exists_of_nearestHit? hfound
  rw [hc] at hfound
  refine ⟨c, j, hc, hj, ?_, fun hdvd => ?_, fun i m hi hlt hm => ?_⟩
  · exact (h.toBinary64_eq_iff c (by omega)).mp (toBinary64_of_nearestHit? hfound)
  · have hexact := hfound.symm.trans (h.nearestHit?_eq_self (by omega) ties hdvd)
    rw [(Decimal.mk.inj (Option.some.inj hexact)).2.1, Nat.div_mul_cancel hdvd]
  · exact h.not_roundTo53_of_nearestHit? (by omega) (hcoarser i hi hlt) hm

end FiniteDouble

/-! ### Zeros at the end -/

/-- No magnitude that rounds to the given one ends in more zeros. -/
def Roundest (n : Nat) : Prop :=
  ∀ m, roundTo53 m = n → ∀ i, 10 ^ i ∣ m → 10 ^ i ∣ n

/-- Below `2 ^ 54` at most one bit is rounded off, and a number that ends in a zero has none there. -/
theorem roundest_of_lt {n : Nat} (h : n < 2 ^ 54) : Roundest n := by
  intro m hround i hm
  cases i with
  | zero => exact Nat.one_dvd n
  | succ i =>
    have hlt : m < 2 ^ 54 := by
      refine Nat.lt_of_not_le fun hle => ?_
      have hmono := roundTo53_mono hle
      rw [hround, show roundTo53 (2 ^ 54) = 2 ^ 54 by decide +kernel] at hmono
      omega
    have htwo : 2 ∣ m := Nat.dvd_trans (by rw [Nat.pow_succ]; omega) hm
    obtain ⟨half, rfl⟩ := htwo
    have hself : roundTo53 (half * 2 ^ 1) = half * 2 ^ 1 := by
      rw [roundTo53_mul_pow, roundTo53_of_lt (by omega)]
    rw [Nat.pow_one, Nat.mul_comm] at hself
    rwa [← hround, hself]

namespace FiniteDouble

variable {x : FiniteDouble} {n : Nat}

/-- A number with one digit in front of its zeros is far from all numbers with more zeros. -/
theorem roundTo53_ne_of_leading {n m t : Nat} (ht : 0 < t) (hn : n ≤ 9 * t) (hm : 10 * t ≤ m) :
    roundTo53 m ≠ n := by
  intro hround
  by_cases hsmall : m < 2 ^ 53
  · rw [roundTo53_of_lt hsmall] at hround
    omega
  have hlog : 53 ≤ Nat.log2 m := (Nat.le_log2 (by omega)).mpr (Nat.not_lt.mp hsmall)
  have hstep : 2 ^ 52 * 2 ^ (Nat.log2 m - 52) ≤ m := by
    rw [← Nat.pow_add, Nat.add_sub_cancel' (by omega)]
    exact Nat.log2_self_le (by omega)
  have herror := (roundHalfEven_error m (Nat.two_pow_pos (Nat.log2 m - 52))).2
  change 2 * m ≤ 2 * roundTo53 m + _ at herror
  omega

/-- **The shortest decimal is the magnitude itself** exactly if no other magnitude of the double
ends in more zeros. -/
theorem HasMagnitude.shortest_eq_iff (h : x.HasMagnitude n) (hlarge : 2 ^ 53 ≤ n)
    (hlimit : n < 2 ^ 64) (ties : TieRule) :
    ∃ c j : Nat, x.shortest ties = ⟨x.negative, c, j⟩ ∧ roundTo53 (c * 10 ^ j) = n ∧
      (c * 10 ^ j = n ↔ Roundest n) := by
  obtain ⟨c, j, hshortest, hj, hround, hself, hcoarser⟩ := h.exists_shortest hlarge hlimit ties
  refine ⟨c, j, hshortest, hround, fun hvalue m hm i hi => ?_, fun hroundest => ?_⟩
  · have hdvd : 10 ^ j ∣ n := hvalue ▸ Nat.dvd_mul_left (10 ^ j) c
    rcases Nat.le_total i j with hle | hge
    · exact Nat.dvd_trans (Nat.pow_dvd_pow 10 hle) hdvd
    refine Classical.byContradiction fun hndvd => ?_
    have hlt : j < i := Nat.lt_of_le_of_ne hge fun heq => hndvd (heq ▸ hdvd)
    rcases Nat.lt_or_ge i (Text.natDigits n).length with hfew | hmany
    · exact hcoarser i m hlt hfew hi hm
    -- what has more zeros than the magnitude has digits is on the coarsest grid too
    obtain ⟨l, hl⟩ : ∃ l, (Text.natDigits n).length = l + 1 :=
      ⟨(Text.natDigits n).length - 1, by omega⟩
    rcases Nat.lt_or_eq_of_le (show j ≤ l by omega) with hlast | rfl
    · exact hcoarser l m hlast (by omega) (Nat.dvd_trans (Nat.pow_dvd_pow 10 (by omega)) hi) hm
    · have hten : 0 < 10 ^ j := Nat.pow_pos (by decide)
      have hbelow : n < 10 ^ (j + 1) :=
        (Nat.length_toDigits_le_iff (by decide) (Nat.succ_pos j)).mp (Nat.le_of_eq hl)
      have hm0 : m ≠ 0 := by
        rintro rfl
        rw [roundTo53_of_lt (by decide)] at hm
        omega
      have habove := Nat.le_of_dvd (Nat.pos_of_ne_zero hm0)
        (Nat.dvd_trans (Nat.pow_dvd_pow 10 (show j + 1 ≤ i from hlt)) hi)
      rw [Nat.pow_succ, Nat.mul_comm _ 10] at hbelow habove
      rw [← hvalue] at hbelow hm
      have hc : c < 10 := Nat.lt_of_mul_lt_mul_right hbelow
      exact roundTo53_ne_of_leading hten (Nat.mul_le_mul_right _ (Nat.le_of_lt_succ hc)) habove hm
  · exact hself (hroundest _ hround j (Nat.dvd_mul_left (10 ^ j) c))

end FiniteDouble

/-! ### The text -/

namespace FloatLayout

/-- A whole decimal is written with all its digits. -/
theorem renderMagnitude_plain {c : Nat} (hc : 0 < c) (j : Nat) :
    plainLayout.renderMagnitude c j = Text.natDigits (c * 10 ^ j) := by
  obtain ⟨z, hz⟩ := natDigits_eq_significantDigits c
  have hlength := congrArg List.length hz
  rw [List.length_append, List.length_replicate] at hlength
  obtain ⟨_, -, -, -, hne⟩ := exists_significantDigits hc
  have hsome : 0 < (significantDigits c).length := List.length_pos_iff.mpr hne
  have hpositional : ∀ e, plainLayout.positional e = true := fun _ => rfl
  have hkeeps : plainLayout.keepsFraction = false := rfl
  rw [Text.natDigits_mul_pow hc, hz, List.append_assoc, List.replicate_append_replicate,
    renderMagnitude, if_neg (Nat.ne_of_gt hc)]
  simp only [hpositional, if_true]
  rw [renderPositional, if_neg (by omega), if_pos (by omega), hkeeps, if_neg Bool.false_ne_true,
    List.append_nil]
  congr 2
  omega

/-- **A whole double is written like an integer** that rounds to it. -/
theorem render_plain_whole {x : FiniteDouble} {n : Nat} (h : x.HasMagnitude n)
    (hlarge : 2 ^ 53 ≤ n) (hlimit : n < 2 ^ 64) :
    ∃ m, plainLayout.render x =
        (if x.negative then '-' :: Text.natDigits m else Text.natDigits m) ∧
      roundTo53 m = n ∧ (m = n ↔ Roundest n) := by
  obtain ⟨c, j, hshortest, hround, hiff⟩ := h.shortest_eq_iff hlarge hlimit plainLayout.ties
  have hc : 0 < c := by
    refine Nat.pos_of_ne_zero ?_
    rintro rfl
    rw [Nat.zero_mul, roundTo53_of_lt (by decide)] at hround
    omega
  refine ⟨c * 10 ^ j, ?_, hround, hiff⟩
  rw [render, hshortest]
  simp only [renderMagnitude_plain hc]

end FloatLayout

end TableQuery
