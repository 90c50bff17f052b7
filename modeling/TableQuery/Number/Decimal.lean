import TableQuery.Number.Binary64
import TableQuery.Text.Ascii
import TableQuery.Text.Blank

/-!
# Decimal text of numbers

Reading integers and doubles from decimal digits. A decimal is a coefficient and a power of ten;
the double it denotes is the nearest one, ties to even (`Decimal.toBinary64`). Two grammars read
doubles: the strict one of a data format stands with that format, the loose one of query literals
is here (`readDouble?`), and both go through the same decimal.
-/

namespace TableQuery

/-- The number `± coefficient · 10 ^ exponent`. -/
structure Decimal where
  negative : Bool
  coefficient : Nat
  exponent : Int
deriving DecidableEq, Repr

namespace Text

/-- The value of a decimal digit. -/
def digitValue (c : Char) : Nat :=
  c.toNat - '0'.toNat

/-- The number a run of decimal digits denotes; the empty run denotes zero. -/
def digitsValue (digits : List Char) : Nat :=
  digits.foldl (fun n c => 10 * n + digitValue c) 0

/-- Splits the longest run of ASCII digits off the front. -/
def takeDigits (text : List Char) : List Char × List Char :=
  (text.takeWhile Char.isDigit, text.dropWhile Char.isDigit)

/-- Splits a sign off the front; `true` means minus. Without a sign the text is positive. -/
def takeSign : List Char → Bool × List Char
  | '-' :: rest => (true, rest)
  | '+' :: rest => (false, rest)
  | text => (false, text)

/-- An integer of any size: an optional sign and at least one ASCII digit, and nothing else. -/
def readInt? (text : List Char) : Option Int :=
  let (negative, digits) := takeSign text
  if !digits.isEmpty && digits.all Char.isDigit then
    some (if negative then -(digitsValue digits : Int) else digitsValue digits)
  else none

/-- The decimal digits of a number, without leading zeros. -/
def natDigits (n : Nat) : List Char :=
  Nat.toDigits 10 n

/-- The decimal digits of an integer after its sign. -/
def intDigits (n : Int) : List Char :=
  if n < 0 then '-' :: natDigits n.natAbs else natDigits n.natAbs

end Text

namespace Decimal

/-- The decimal of an integral and a fractional run of digits and a power of ten. -/
def ofDigits (negative : Bool) (whole fraction : List Char) (exponent : Int) : Decimal :=
  ⟨negative, Text.digitsValue (whole ++ fraction), exponent - fraction.length⟩

/-- The nearest double. Magnitudes from `10 ^ 310` up are infinite and those below `10 ^ -400` are
zero, whatever their digits, so no power beyond those is ever computed. -/
def toBinary64 (d : Decimal) : Binary64 :=
  if d.coefficient = 0 then .ofRank d.negative 0
  else if 310 ≤ d.exponent then .infinite d.negative
  else if 0 ≤ d.exponent then
    .ofQuotient d.negative (d.coefficient * 10 ^ d.exponent.toNat) 1
  else if d.exponent + (Nat.toDigits 10 d.coefficient).length < -400 then .ofRank d.negative 0
  else .ofQuotient d.negative d.coefficient (10 ^ (-d.exponent).toNat)

end Decimal

namespace Text

/-- A signed power of ten after an exponent mark, or no mark at all. -/
def readExponent? : List Char → Option Int
  | [] => some 0
  | c :: rest =>
    if c == 'e' || c == 'E' then readInt? rest else none

/-- The magnitude of a literal: digits with an optional point, at least one digit in all, and an
optional exponent. -/
def readMagnitude? (negative : Bool) (text : List Char) : Option Decimal :=
  let (whole, rest) := takeDigits text
  let (fraction, rest) := match rest with
    | '.' :: rest => takeDigits rest
    | _ => ([], rest)
  if whole.isEmpty && fraction.isEmpty then none
  else (readExponent? rest).map (Decimal.ofDigits negative whole fraction)

/-- A double as a query literal writes it: an optional sign, then a decimal with an optional
exponent, or `inf`, `infinity` or `nan` in any case. -/
def readDouble? (text : List Char) : Option Binary64 :=
  let (negative, magnitude) := takeSign text
  let word := lowerAscii magnitude
  if word == "inf".toList || word == "infinity".toList then some (.infinite negative)
  else if word == "nan".toList then some .nan
  else (readMagnitude? negative magnitude).map Decimal.toBinary64

end Text

end TableQuery
