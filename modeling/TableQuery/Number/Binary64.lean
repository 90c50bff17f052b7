/-!
# Doubles

The numbers of the IEEE 754 format `binary64`, with exact arithmetic on natural numbers. A finite
double is a sign and a *rank*: its place when the finite doubles of one sign are counted upwards
from zero. The rank is the bit pattern without its sign bit, so ranks are ordered as magnitudes
are, and every rank below `2047 · 2^52` is a finite double.

Every finite double is a whole number of *units* of `2^-1074`, the smallest positive double.
Comparison, addition and rounding are done on units, where all of them are integer questions:
rounding a quotient to the nearest double is rounding it to a multiple of the power of two that
keeps 53 bits, and its rank is read off that multiple (`nearestRank`).
-/

-- A power of a number is the core one, also where a file has the algebra of monoids in scope.
attribute [instance (20000), default_instance 20000] instPowNat

namespace TableQuery

/-- How many units of `2^-1074` make one. -/
def unitsPerOne : Nat := 2 ^ 1074

/-- The first rank that is no finite double. -/
def rankLimit : Nat := 2047 * 2 ^ 52

/-- A finite double: its sign and its place among the magnitudes. -/
structure FiniteDouble where
  negative : Bool
  rank : Nat
  rank_lt : rank < rankLimit
deriving DecidableEq

/-- A double: not a number, one of the two infinities, or finite. -/
inductive Binary64 where
  | nan
  | infinite (negative : Bool)
  | finite (value : FiniteDouble)
deriving DecidableEq

/-! ### Ranks and units -/

/-- The magnitude of a rank, in units. Below `2^52` it is the rank itself; from there on the rank
splits into a binade and the place inside it. -/
def unitsOfRank (rank : Nat) : Nat :=
  if rank < 2 ^ 52 then rank
  else (2 ^ 52 + rank % 2 ^ 52) * 2 ^ (rank / 2 ^ 52 - 1)

/-- The quotient rounded to a whole number, a half going to the even neighbour. -/
def roundHalfEven (num den : Nat) : Nat :=
  let q := num / den
  let r := num % den
  if 2 * r < den then q
  else if den < 2 * r then q + 1
  else q + q % 2

/-- The rank nearest to a magnitude of `num / den` units, a tie going to the even rank. It may lie
beyond the finite doubles. -/
def nearestRank (num den : Nat) : Nat :=
  let shift := Nat.log2 (num / den) - 52
  shift * 2 ^ 52 + roundHalfEven num (den * 2 ^ shift)

namespace FiniteDouble

/-- The zero without a sign. -/
def zero : FiniteDouble := ⟨false, 0, by decide⟩

/-- The value in units, with its sign. Both zeros have none. -/
def units (x : FiniteDouble) : Int :=
  if x.negative then -(unitsOfRank x.rank : Int) else unitsOfRank x.rank

/-- The value without its fraction. -/
def truncate (x : FiniteDouble) : Int :=
  x.units.tdiv unitsPerOne

/-- The value has no fraction. -/
def isWhole (x : FiniteDouble) : Bool :=
  x.units % (unitsPerOne : Int) == 0

/-- The integer that a whole double below `2^53` in magnitude stands for. From `2^53` on a double
no longer tells neighbouring integers apart. -/
def safeInt? (x : FiniteDouble) : Option Int :=
  if x.isWhole && x.truncate.natAbs < 2 ^ 53 then some x.truncate else none

/-- The bit pattern as a number below `2^64`. -/
def bits (x : FiniteDouble) : Nat :=
  (if x.negative then 2 ^ 63 else 0) + x.rank

end FiniteDouble

namespace Binary64

/-! ### Rounding to a double -/

/-- The double of a rank; past the last finite one it is infinite. -/
def ofRank (negative : Bool) (rank : Nat) : Binary64 :=
  if h : rank < rankLimit then .finite ⟨negative, rank, h⟩ else .infinite negative

/-- The double nearest to `num / den`. -/
def ofQuotient (negative : Bool) (num den : Nat) : Binary64 :=
  ofRank negative (nearestRank (num * unitsPerOne) den)

/-- The double nearest to an integer. -/
def ofInt (n : Int) : Binary64 :=
  ofQuotient (decide (n < 0)) n.natAbs 1

/-- The double nearest to a signed number of units that need no rounding below one unit. -/
def ofUnits (n : Int) : Binary64 :=
  ofRank (decide (n < 0)) (nearestRank n.natAbs 1)

/-! ### Comparison -/

/-- The order of two doubles; not a number is ordered with nothing, and both zeros are equal. -/
def compare? : Binary64 → Binary64 → Option Ordering
  | nan, _ | _, nan => none
  | infinite a, infinite b => some (compare b a)
  | infinite a, finite _ => some (if a then .lt else .gt)
  | finite _, infinite b => some (if b then .gt else .lt)
  | finite x, finite y => some (compare x.units y.units)

/-- Equality of values: both zeros are equal and not a number equals nothing. -/
def equals (x y : Binary64) : Bool :=
  x.compare? y == some .eq

/-- The double is neither infinite nor not a number. -/
def finite? : Binary64 → Option FiniteDouble
  | finite x => some x
  | _ => none

/-! ### Arithmetic -/

/-- The sum, rounded once. Infinities of opposite signs have none, and a sum of zero is negative
only if both operands are negative zeros. -/
def add : Binary64 → Binary64 → Binary64
  | nan, _ | _, nan => nan
  | infinite a, infinite b => if a == b then infinite a else nan
  | infinite a, finite _ => infinite a
  | finite _, infinite b => infinite b
  | finite x, finite y =>
    if x.units + y.units == 0 then
      .finite { FiniteDouble.zero with negative := x.negative && y.negative && x.rank == 0 }
    else ofUnits (x.units + y.units)

/-- The sum of a list, from left to right. -/
def sum (xs : List Binary64) : Binary64 :=
  xs.foldl add (.finite .zero)

end Binary64

end TableQuery
