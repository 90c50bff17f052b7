import Mathlib.Data.List.Perm.Basic
import Mathlib.Data.Set.List
import TableQuery.Proofs.Number.WholeDoubles
import TableQuery.Proofs.Stage.Sorting

/-!
# Sorting integers

Numbers are compared by the doubles nearest to them, so two integers are in the order of
their values exactly if they have different doubles, and compare equal otherwise
(`TableQuery.Json.compareValues_int`). Those of one double lie close together and far
out: at most `2 ^ 11` apart, and never below `2 ^ 53` (`TableQuery.nearestWhole_ne`).

For the stage `sort` this means that integers of one double keep the order in which they
came, and all others get into the order of their values. What comes out is therefore
sorted by value exactly if the integers of one double already came in that order. This
holds of every stable sorting and every finer order
(`TableQuery.SortsInto.pairwise_iff`).
-/

namespace TableQuery

/-! ### Finer orders -/

namespace SortsInto

variable {α β : Type} {cmp : α → α → Ordering}

/-- Sorting the images of some elements sorts the elements. -/
theorem of_map {f : β → α} (hf : Function.Injective f) {items sorted : List β}
    (h : SortsInto cmp (items.map f) (sorted.map f)) :
    SortsInto (fun a b => cmp (f a) (f b)) items sorted where
  perm := (List.map_perm_map_iff hf).mp h.perm
  ordered := List.pairwise_map.mp h.ordered
  stable x := by
    have hstable := h.stable (f x)
    rw [List.filter_map, List.filter_map] at hstable
    exact List.map_injective_iff.mpr hf hstable

/-- **A finer order** holds of what is sorted exactly if it holds of the items that compare equal,
in the order in which they came. -/
theorem pairwise_iff [Std.ReflCmp cmp] {items sorted : List α} (h : SortsInto cmp items sorted)
    {R : α → α → Prop} (hR : ∀ a ∈ items, ∀ b ∈ items, cmp a b = .lt → R a b) :
    sorted.Pairwise R ↔ items.Pairwise fun a b => cmp a b = .eq → R a b := by
  -- two items that compare equal stand in the same order on both sides
  have hpair : ∀ {a b : α} {xs ys : List α}, cmp a b = .eq →
      (xs.filter (fun y => cmp a y == .eq) = ys.filter fun y => cmp a y == .eq) →
        [a, b].Sublist xs → [a, b].Sublist ys := by
    intro a b xs ys hab hfilter hsub
    have hkept : [a, b].filter (fun y => cmp a y == .eq) = [a, b] := by
      simp [hab, Std.ReflCmp.compare_self]
    have hsub' := hsub.filter fun y => cmp a y == .eq
    rw [hkept, hfilter] at hsub'
    exact hsub'.trans List.filter_sublist
  rw [List.pairwise_iff_forall_sublist, List.pairwise_iff_forall_sublist]
  constructor
  · intro hsorted a b hsub hab
    exact hsorted (hpair hab (h.stable a).symm hsub)
  · intro hitems a b hsub
    have hmem : ∀ c ∈ [a, b], c ∈ items := fun c hc => h.perm.mem_iff.mp (hsub.mem hc)
    have hle := List.pairwise_iff_forall_sublist.mp h.ordered hsub
    cases hab : cmp a b with
    | lt => exact hR a (hmem a (by simp)) b (hmem b (by simp)) hab
    | eq => exact hitems (hpair hab (h.stable a) hsub) hab
    | gt =>
      rw [hab] at hle
      cases hle

end SortsInto

/-! ### Integers of one double -/

/-- **Integers are compared by their doubles.** -/
theorem Json.compareValues_int {a b : Int} (ha : NumberToken.fitsWord a = true)
    (hb : NumberToken.fitsWord b = true) :
    compareValues (.num (.int a)) (.num (.int b)) = compare (nearestWhole a) (nearestWhole b) := by
  obtain ⟨x, hx, hunits⟩ := Binary64.ofInt_eq_finite ha
  obtain ⟨y, hy, hunits'⟩ := Binary64.ofInt_eq_finite hb
  rw [compareValues, Number.toBinary64, Number.toBinary64, hx, hy, Binary64.compare?,
    Option.getD_some, hunits, hunits']
  have hpos : (0 : Int) < unitsPerOne := Int.natCast_pos.mpr unitsPerOne_pos
  rcases Int.lt_trichotomy (nearestWhole a) (nearestWhole b) with h | h | h
  · rw [Int.compare_eq_lt.mpr h, Int.compare_eq_lt.mpr (Int.mul_lt_mul_of_pos_right h hpos)]
  · rw [h, Int.compare_eq_eq.mpr rfl, Int.compare_eq_eq.mpr rfl]
  · rw [Int.compare_eq_gt.mpr h, Int.compare_eq_gt.mpr (Int.mul_lt_mul_of_pos_right h hpos)]

/-- Integers of one double are close together and far out. -/
theorem nearestWhole_ne {a b : Int} (ha : NumberToken.fitsWord a = true)
    (hb : NumberToken.fitsWord b = true) (hlt : a < b)
    (h : a.natAbs < 2 ^ 53 ∨ b.natAbs < 2 ^ 53 ∨ 2 ^ 11 < b - a) :
    nearestWhole a ≠ nearestWhole b := by
  intro heq
  rcases h with h | h | h
  · exact absurd (eq_of_nearestWhole_eq h heq.symm) (Int.ne_of_gt hlt)
  · exact absurd (eq_of_nearestWhole_eq h heq) (Int.ne_of_lt hlt)
  · -- at most eleven bits are rounded off an integer of 64 bits
    have hstep : ∀ {n : Int}, NumberToken.fitsWord n = true →
        2 ^ (Nat.log2 n.natAbs - 52) ≤ 2 ^ 11 := by
      intro n hn
      simp only [NumberToken.fitsWord, Bool.and_eq_true, decide_eq_true_eq] at hn
      refine Nat.pow_le_pow_right (by decide) ?_
      rcases Nat.eq_zero_or_pos n.natAbs with hzero | hpos
      · rw [hzero]
        decide
      · have := (Nat.log2_lt (Nat.ne_of_gt hpos)).mpr (show n.natAbs < 2 ^ 64 by omega)
        omega
    have herror := Nat.le_trans (nearestWhole_error a) (hstep ha)
    have herror' := Nat.le_trans (nearestWhole_error b) (hstep hb)
    rw [heq] at herror
    omega

/-! ### The stage -/

namespace Builtin

/-- The order of values that is asked for. -/
def ByValue (descending : Bool) (a b : Int) : Prop :=
  if descending then b ≤ a else a ≤ b

/-- The integer as a value. -/
def integer (n : Int) : Json :=
  .num (.int n)

variable {ns : List Int}

theorem integer_injective : Function.Injective integer := by
  rintro a b ⟨⟩
  rfl

/-- A list of integers in another order. -/
theorem exists_of_perm_map_integer {sorted : List Json} (h : sorted.Perm (ns.map integer)) :
    ∃ ms : List Int, sorted = ms.map integer := by
  have hall : ∀ v ∈ sorted, v ∈ Set.range integer := by
    intro v hv
    obtain ⟨n, -, rfl⟩ := List.mem_map.mp (h.mem_iff.mp hv)
    exact ⟨n, rfl⟩
  have hrange : sorted ∈ Set.range (List.map integer) := by
    rw [Set.range_list_map]
    exact hall
  obtain ⟨ms, hms⟩ := hrange
  exact ⟨ms, hms.symm⟩

theorem itemOrder_integer {a b : Int} (ha : NumberToken.fitsWord a = true)
    (hb : NumberToken.fitsWord b = true) (descending : Bool) :
    itemOrder none descending (integer a) (integer b) =
      if descending then compare (nearestWhole b) (nearestWhole a)
      else compare (nearestWhole a) (nearestWhole b) := by
  have hfield : ∀ n, fieldOrNull none (integer n) = integer n := fun _ => rfl
  rw [itemOrder, hfield, hfield, integer, integer, Json.compareValues_int ha hb,
    Json.compareValues_int hb ha]

theorem itemOrder_integer_eq_eq {a b : Int} (ha : NumberToken.fitsWord a = true)
    (hb : NumberToken.fitsWord b = true) (descending : Bool) :
    itemOrder none descending (integer a) (integer b) = .eq ↔ nearestWhole a = nearestWhole b := by
  rw [itemOrder_integer ha hb]
  split
  · rw [Int.compare_eq_eq, eq_comm]
  · rw [Int.compare_eq_eq]

/-- What is less by its double is less by its value. -/
theorem byValue_of_itemOrder {a b : Int} (ha : NumberToken.fitsWord a = true)
    (hb : NumberToken.fitsWord b = true) {descending : Bool}
    (h : itemOrder none descending (integer a) (integer b) = .lt) : ByValue descending a b := by
  rw [itemOrder_integer ha hb] at h
  rw [ByValue]
  split at h
  · rename_i hdescending
    have := Int.compare_eq_lt.mp h
    have := fun hle : a ≤ b => nearestWhole_mono hle
    rw [if_pos hdescending]
    omega
  · rename_i hascending
    have := Int.compare_eq_lt.mp h
    have := fun hle : b ≤ a => nearestWhole_mono hle
    rw [if_neg hascending]
    omega

/-- **Integers are sorted by their doubles**: two of them compare equal if they have one double,
and are in the order of their values otherwise; a list of them is sorted by value exactly if those
of one double came in that order. -/
theorem sorts_integers (hfits : ∀ n ∈ ns, NumberToken.fitsWord n = true) :
    (∀ a ∈ ns, ∀ b ∈ ns, a < b →
      (integer a).compareValues (integer b) =
          (if nearestWhole a = nearestWhole b then .eq else .lt) ∧
        (a.natAbs < 2 ^ 53 ∨ b.natAbs < 2 ^ 53 ∨ 2 ^ 11 < b - a →
          (integer a).compareValues (integer b) = .lt)) ∧
    ∀ (scope : StageScope) (args : Arguments) (descending : Bool),
      args.string? "field" = none → AsksFor (args.string? "order") descending →
        ∃ sorted : List Int,
          sort.run scope args (.arr (ns.map integer)) = .done (.arr (sorted.map integer)) ∧
          sorted.Perm ns ∧
          (sorted.Pairwise (ByValue descending) ↔
            ns.Pairwise fun a b => nearestWhole a = nearestWhole b → ByValue descending a b) := by
  refine ⟨fun a ha b hb hlt => ?_, fun scope args descending hfield horder => ?_⟩
  · have hcompare : (integer a).compareValues (integer b) =
        if nearestWhole a = nearestWhole b then .eq else .lt := by
      rw [integer, integer, Json.compareValues_int (hfits a ha) (hfits b hb)]
      split
      · exact Int.compare_eq_eq.mpr ‹_›
      · have := nearestWhole_mono (Int.le_of_lt hlt)
        exact Int.compare_eq_lt.mpr (by omega)
    refine ⟨hcompare, fun hapart => ?_⟩
    rw [hcompare, if_neg (nearestWhole_ne (hfits a ha) (hfits b hb) hlt hapart)]
  · have hrun : sort.run scope args (.arr (ns.map integer)) =
        .done (.arr (sortItems none descending (ns.map integer))) := by
      rw [run_sort rfl horder, hfield]
    have hsorts : SortsInto (itemOrder none descending) (ns.map integer)
        (sortItems none descending (ns.map integer)) := by
      rw [sortItems_eq]
      exact sortsInto_sortBy _
    obtain ⟨sorted, hsorted⟩ := exists_of_perm_map_integer hsorts.perm
    rw [hsorted] at hrun hsorts
    have hints := hsorts.of_map integer_injective
    have : Std.ReflCmp fun a b => itemOrder none descending (integer a) (integer b) :=
      ⟨Std.ReflCmp.compare_self⟩
    refine ⟨sorted, hrun, hints.perm, ?_⟩
    rw [hints.pairwise_iff fun a ha b hb => byValue_of_itemOrder (hfits a ha) (hfits b hb)]
    refine List.Pairwise.iff_of_mem fun {a b} ha hb => ?_
    rw [itemOrder_integer_eq_eq (hfits a ha) (hfits b hb)]

/-- The first two integers that share a double and one below them, in a list in which the two come
the wrong way round. -/
theorem sorts_integers_large :
    let ns : List Int := [2 ^ 53 + 1, 2 ^ 64 - 1, -2 ^ 63, 2 ^ 53, 2 ^ 53 - 1]
    (∀ n ∈ ns, NumberToken.fitsWord n = true) ∧
      (integer (2 ^ 53)).compareValues (integer (2 ^ 53 + 1)) = .eq ∧
      (integer (2 ^ 53 - 1)).compareValues (integer (2 ^ 53 + 1)) = .lt ∧
      ∃ sorted : List Int,
        sort.run ⟨{}, {}, none⟩ [] (.arr (ns.map integer)) = .done (.arr (sorted.map integer)) ∧
          sorted.Perm ns ∧ ¬sorted.Pairwise (ByValue false) := by
  intro ns
  have hfits : ∀ n ∈ ns, NumberToken.fitsWord n = true := by decide
  obtain ⟨hcompare, hsort⟩ := sorts_integers hfits
  have hpair := hcompare (2 ^ 53) (by decide) (2 ^ 53 + 1) (by decide) (by decide)
  have hbelow := hcompare (2 ^ 53 - 1) (by decide) (2 ^ 53 + 1) (by decide) (by decide)
  rw [if_pos (by decide +kernel)] at hpair
  obtain ⟨sorted, hrun, hperm, hsorted⟩ :=
    hsort ⟨{}, {}, none⟩ [] false rfl (fun _ hw => by cases hw)
  refine ⟨hfits, hpair.1, hbelow.2 (.inl (by decide)), sorted, hrun, hperm, ?_⟩
  rw [hsorted]
  intro hpairwise
  -- the first item and the last but one have one double, and are not in order
  have hlast := (List.pairwise_cons.mp hpairwise).1 (2 ^ 53) (by decide) (by decide +kernel)
  exact absurd (show (2 ^ 53 + 1 : Int) ≤ 2 ^ 53 from hlast) (by decide)

/-- Integers of 64 bits are not always in the order of their values: `2 ^ 53` and its successor
compare equal. -/
theorem not_integers_in_order :
    ¬∀ a b : Int, NumberToken.fitsWord a = true → NumberToken.fitsWord b = true → a < b →
      (integer a).compareValues (integer b) = .lt := by
  intro h
  have hlt := h (2 ^ 53) (2 ^ 53 + 1) (by decide) (by decide) (by decide)
  exact absurd hlt (by decide +kernel)

end Builtin

end TableQuery
