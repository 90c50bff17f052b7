import Mathlib.Order.Defs.LinearOrder
import TableQuery.Proofs.Json.Unambiguous
import TableQuery.Value.Order

/-!
# Values are totally preordered

Values of one kind are compared by what they stand for and values of different kinds by
their texts, and it is not clear from this that the comparison is transitive: two numbers
may stand in one order as doubles and in the other as texts.

They do not get in each other's way. What kind of value a text belongs to is seen from its
first character (`TableQuery.Json.head_render`), and the ranges of the first characters do
not overlap, so that values of different kinds are in the order of their kinds
(`TableQuery.Json.compare_serialize`). The comparison is therefore lexicographic: the kind
comes first, then the double nearest to a number, and then a text
(`TableQuery.Json.compareValues_eq`).
-/

namespace TableQuery

/-! ### Doubles -/

namespace Binary64

/-- The finite doubles lie between the two infinities. -/
def side : Binary64 → Int
  | infinite negative => if negative then -1 else 1
  | _ => 0

/-- The value of a finite double in units. -/
def finiteUnits : Binary64 → Int
  | finite x => x.units
  | _ => 0

/-- Doubles other than not a number are compared by their side first. -/
theorem compare?_eq {x y : Binary64} (hx : x ≠ nan) (hy : y ≠ nan) :
    x.compare? y = some (compareLex (compareOn side) (compareOn finiteUnits) x y) := by
  cases x with
  | nan => exact absurd rfl hx
  | infinite a =>
    cases y with
    | nan => exact absurd rfl hy
    | infinite b => cases a <;> cases b <;> rfl
    | finite y => cases a <;> rfl
  | finite x =>
    cases y with
    | nan => exact absurd rfl hy
    | infinite b => cases b <;> rfl
    | finite y => rfl

end Binary64

theorem Number.toBinary64_ne_nan (n : Number) : n.toBinary64 ≠ .nan := by
  cases n with
  | float x => exact Binary64.noConfusion
  | int n =>
    simp only [toBinary64, Binary64.ofInt, Binary64.ofQuotient, Binary64.ofRank]
    split_ifs <;> exact Binary64.noConfusion

namespace Json

/-! ### Kinds -/

/-- The place of the kind of a value among the kinds. -/
def kindRank : Json → Nat
  | null => 0
  | str _ => 1
  | num _ => 2
  | arr _ => 3
  | bool _ => 4
  | obj _ => 5

/-- The code points that the texts of the values of a kind begin with. -/
def headRange : Nat → Nat × Nat
  | 1 => (34, 34)
  | 2 => (45, 57)
  | 3 => (91, 91)
  | 4 => (102, 116)
  | _ => (123, 123)

/-- A higher kind begins behind where a lower one ends. -/
theorem headRange_lt : ∀ s ≤ 5, ∀ r < s, 0 < r → (headRange r).2 < (headRange s).1 := by
  decide

theorem kindRank_le (v : Json) : v.kindRank ≤ 5 := by
  cases v <;> simp [kindRank]

theorem kindRank_pos {v : Json} (hv : v ≠ null) : 0 < v.kindRank := by
  cases v <;> simp_all [kindRank]

/-- **The first character of a text** tells the kind of the value. -/
theorem head_render {v : Json} (hv : v ≠ null) : ∃ c rest, v.render = c :: rest ∧
    (headRange v.kindRank).1 ≤ c.toNat ∧ c.toNat ≤ (headRange v.kindRank).2 := by
  cases v with
  | null => exact absurd rfl hv
  | bool b => cases b <;> exact ⟨_, _, rfl, by decide, by decide⟩
  | num n =>
    obtain ⟨c, rest, hrest, hc⟩ := head_renderNumber n
    refine ⟨c, rest, by rw [render, hrest], ?_⟩
    change 45 ≤ c.toNat ∧ c.toNat ≤ 57
    rcases hc with hc | rfl
    · have hdigit := Text.isDigit_iff.mp hc
      omega
    · decide
  | str s => exact ⟨'"', _, rfl, Nat.le_refl _, Nat.le_refl _⟩
  | arr items => exact ⟨'[', _, by rw [render]; rfl, Nat.le_refl _, Nat.le_refl _⟩
  | obj fields => exact ⟨'\x7b', _, by rw [render]; rfl, Nat.le_refl _, Nat.le_refl _⟩

theorem serialize_lt_of_kindRank_lt {a b : Json} (ha : a ≠ null)
    (h : a.kindRank < b.kindRank) : a.serialize < b.serialize := by
  have hb : b ≠ null := by
    rintro rfl
    exact absurd h (Nat.not_lt_zero _)
  obtain ⟨c, rest, hrest, -, hc⟩ := head_render ha
  obtain ⟨d, rest', hrest', hd, -⟩ := head_render hb
  have hgap := headRange_lt _ b.kindRank_le _ h (kindRank_pos ha)
  have hlt : c < d := Nat.lt_of_le_of_lt hc (Nat.lt_of_lt_of_le hgap hd)
  rw [String.lt_iff, serialize, serialize, String.toList_ofList, String.toList_ofList, hrest,
    hrest']
  exact List.Lex.rel hlt

/-- **Texts of different kinds** are in the order of the kinds. -/
theorem compare_serialize {a b : Json} (ha : a ≠ null) (hb : b ≠ null)
    (h : a.kindRank ≠ b.kindRank) :
    compare a.serialize b.serialize = compare a.kindRank b.kindRank := by
  have hlower : ∀ {a b : Json}, a ≠ null → a.kindRank < b.kindRank →
      compare a.serialize b.serialize = .lt := fun ha h =>
    compareOfLessAndEq_eq_lt.mpr (serialize_lt_of_kindRank_lt ha h)
  rcases Nat.lt_or_gt_of_ne h with hlt | hgt
  · rw [hlower ha hlt, Nat.compare_eq_lt.mpr hlt]
  · rw [Std.OrientedCmp.gt_of_lt (hlower hb hgt), Nat.compare_eq_gt.mpr hgt]

/-! ### The comparison -/

/-- The double that a number is compared by. -/
def orderNumber : Json → Binary64
  | num n => n.toBinary64
  | _ => .finite .zero

/-- The text that a value is compared by where kind and number do not decide. -/
def orderText : Json → String
  | str s => s
  | num _ => ""
  | value => value.serialize

/-- Doubles are compared by their side, and the finite ones by their units. -/
def compareNumbers : Json → Json → Ordering :=
  compareLex (compareOn fun v => v.orderNumber.side) (compareOn fun v => v.orderNumber.finiteUnits)

theorem compareValues_of_kindRank_ne {a b : Json} (h : a.kindRank ≠ b.kindRank) :
    a.compareValues b = compare a.kindRank b.kindRank := by
  by_cases ha : a = null
  · subst ha
    cases b with
    | null => exact absurd rfl h
    | bool | num | str | arr | obj => rfl
  by_cases hb : b = null
  · subst hb
    cases a with
    | null => exact absurd rfl h
    | bool | num | str | arr | obj => rfl
  rw [← compare_serialize ha hb h]
  cases a <;> cases b <;> simp_all [compareValues, kindRank]

theorem compareValues_of_kindRank_eq {a b : Json} (h : a.kindRank = b.kindRank) :
    a.compareValues b = (compareNumbers a b).then (compare a.orderText b.orderText) := by
  cases a <;> cases b <;> cases h
  case null.null => rfl
  case bool.bool a b => cases a <;> cases b <;> decide
  case num.num m n =>
    have hcompare := Binary64.compare?_eq m.toBinary64_ne_nan n.toBinary64_ne_nan
    rw [compareValues, hcompare]
    exact (Ordering.then_eq ..).symm
  case str.str s t => rfl
  case arr.arr xs ys => rfl
  case obj.obj xs ys => rfl

/-- **The comparison is lexicographic**, in the kind, the number and the text. -/
theorem compareValues_eq : compareValues =
    compareLex (compareOn kindRank) (compareLex compareNumbers (compareOn orderText)) := by
  funext a b
  by_cases h : a.kindRank = b.kindRank
  · have hkind : compareOn kindRank a b = .eq := Nat.compare_eq_eq.mpr h
    rw [compareValues_of_kindRank_eq h, compareLex, hkind]
    rfl
  · have hkind : compare a.kindRank b.kindRank ≠ .eq := fun heq => h (Nat.compare_eq_eq.mp heq)
    rw [compareValues_of_kindRank_ne h, compareLex, compareOn]
    cases hc : compare a.kindRank b.kindRank with
    | eq => exact absurd hc hkind
    | lt | gt => rfl

instance : Std.TransCmp compareValues := by
  rw [compareValues_eq]
  unfold compareNumbers
  infer_instance

theorem swap_compareValues (a b : Json) : (a.compareValues b).swap = b.compareValues a :=
  (@Std.OrientedCmp.eq_swap _ Json.compareValues _ b a).symm

end Json

end TableQuery
