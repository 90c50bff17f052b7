import TableQuery.Number.Decimal

/-!
# Shortest decimal text of doubles

A finite double is written with the fewest significant digits that read back as that very double.
For one digit after another up to seventeen, the two neighbours of the value on the grid of that
many digits are read back; the first grid with a hit decides, and of two hits the nearer one.
Should no grid serve, all digits of the exact value are written, so the text reads back whatever
happens.

How the digits are laid out is a separate choice, a `FloatLayout`: which magnitudes are written
positionally, whether a whole number keeps a fraction, and which way a tie between two hits goes.
-/

namespace TableQuery

/-- Where a tie between two equally near decimals goes. -/
inductive TieRule where
  | toEven
  | upward
deriving DecidableEq, Repr

/-- How the digits of a double become a text. -/
structure FloatLayout where
  /-- The decimal exponents of the first digit for which no exponent is written. -/
  positional : Int → Bool
  /-- A whole number in positional form ends in `.0`. -/
  keepsFraction : Bool
  ties : TieRule

namespace FiniteDouble

/-- The decimal exponent of the first significant digit of a positive magnitude in units. -/
def leadingExponent (units : Nat) : Int :=
  (Nat.toDigits 10 (units * 10 ^ 324 / unitsPerOne)).length - 325

/-- The magnitude divided by a power of ten, as a numerator and a denominator. -/
def scaled (units : Nat) (exponent : Int) : Nat × Nat :=
  if 0 ≤ exponent then (units, unitsPerOne * 10 ^ exponent.toNat)
  else (units * 10 ^ (-exponent).toNat, unitsPerOne)

/-- The decimal that reads back as `x` and is nearest to `num / den` steps on the grid of a power
of ten. Only the two neighbours are looked at. -/
def nearestHit? (ties : TieRule) (x : FiniteDouble) (exponent : Int) (num den : Nat) :
    Option Decimal :=
  let low := num / den
  let readsBack (c : Nat) : Bool :=
    Decimal.toBinary64 ⟨x.negative, c, exponent⟩ = .finite x
  let twice := 2 * (num % den)
  let up := den < twice ||
    (twice == den && match ties with
      | .upward => true
      | .toEven => low % 2 == 1)
  let first := if up then low + 1 else low
  let second := if up then low else low + 1
  if readsBack first then some ⟨x.negative, first, exponent⟩
  else if readsBack second then some ⟨x.negative, second, exponent⟩
  else none

/-- The decimal of `count` significant digits that reads back as `x` and is nearest to it. -/
def shortestOf? (ties : TieRule) (x : FiniteDouble) (count : Nat) : Option Decimal :=
  let units := unitsOfRank x.rank
  let exponent := leadingExponent units + 1 - count
  let steps := scaled units exponent
  nearestHit? ties x exponent steps.1 steps.2

/-- Every digit of the exact value: a unit is `5 ^ 1074` over `10 ^ 1074`. -/
def exact (x : FiniteDouble) : Decimal :=
  ⟨x.negative, unitsOfRank x.rank * 5 ^ 1074, -1074⟩

/-- The shortest decimal that reads back as `x`. -/
def shortest (ties : TieRule) (x : FiniteDouble) : Decimal :=
  if x.rank = 0 then ⟨x.negative, 0, 0⟩
  else ((List.range 17).findSome? fun n => shortestOf? ties x (n + 1)).getD x.exact

end FiniteDouble

namespace FloatLayout

/-- The digits `0.d₁d₂… · 10 ^ point` without an exponent. -/
def renderPositional (layout : FloatLayout) (digits : List Char) (point : Int) : List Char :=
  if point ≤ 0 then
    "0.".toList ++ List.replicate (-point).toNat '0' ++ digits
  else if digits.length ≤ point.toNat then
    digits ++ List.replicate (point.toNat - digits.length) '0' ++
      (if layout.keepsFraction then ".0".toList else [])
  else digits.take point.toNat ++ '.' :: digits.drop point.toNat

/-- The digits `d₁.d₂… · 10 ^ exponent` with a signed exponent. -/
def renderScientific (digits : List Char) (exponent : Int) : List Char :=
  let mantissa := match digits with
    | [] => []
    | [d] => [d]
    | d :: rest => d :: '.' :: rest
  mantissa ++ 'e' :: (if exponent < 0 then '-' else '+') :: Text.natDigits exponent.natAbs

/-- The digits of a number with the trailing zeros dropped. -/
def significantDigits (n : Nat) : List Char :=
  ((Text.natDigits n).reverse.dropWhile (· == '0')).reverse

/-- The text of a coefficient and a power of ten. -/
def renderMagnitude (layout : FloatLayout) (coefficient : Nat) (exponent : Int) : List Char :=
  if coefficient = 0 then '0' :: (if layout.keepsFraction then ".0".toList else [])
  else
    let point := (Text.natDigits coefficient).length + exponent
    let digits := significantDigits coefficient
    if layout.positional (point - 1) then layout.renderPositional digits point
    else renderScientific digits (point - 1)

/-- The text of a finite double. -/
def render (layout : FloatLayout) (x : FiniteDouble) : List Char :=
  let d := x.shortest layout.ties
  let body := layout.renderMagnitude d.coefficient d.exponent
  if x.negative then '-' :: body else body

end FloatLayout

end TableQuery
