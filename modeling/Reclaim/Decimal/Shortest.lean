import Reclaim.Decimal.Binary64

/-!
# The shortest decimal text of a binary number

Among the decimals that round to a given binary number the shortest one is
chosen, and of several the nearest one.  For one, two, up to seventeen digits
the two neighbours of the number on that decimal grid are tested against the
interval of reals that round to the number; the first grid with a neighbour in
the interval wins.

The written form is positional while the decimal exponent stays in the range of
a `Layout`, with at least one digit after the point, and scientific outside.
-/

namespace Reclaim
namespace Decimal

/-- The reals `n / den` with `low ≤ n ≤ high`; without its ends if not closed. -/
structure Interval where
  low : Nat
  value : Nat
  high : Nat
  den : Nat
  closed : Bool
  deriving Repr

namespace Interval

/-- The reals that round to a number; the lower neighbour of a power of two is nearer. -/
def around (x : Magnitude) : Interval :=
  let below := if x.mantissa = Magnitude.leastFullMantissa ∧ -1074 < x.exponent then 1
    else 2
  let unit := Nat.pow 2 x.exponent.toNat
  ⟨(4 * x.mantissa - below) * unit, 4 * x.mantissa * unit,
    (4 * x.mantissa + 2) * unit, 4 * x.den, x.mantissa % 2 = 0⟩

/-- The real `num / d` rounds to the number. -/
def contains (i : Interval) (num d : Nat) : Bool :=
  if i.closed then
    i.low * d ≤ num * i.den && num * i.den ≤ i.high * d
  else
    i.low * d < num * i.den && num * i.den < i.high * d

end Interval

/-- Counts the zeros between the point and the first digit of `num / den`, at most `fuel`. -/
def zerosAfterPoint (num den : Nat) : Nat → Nat
  | 0 => 0
  | fuel + 1 =>
      if den ≤ num * 10 then 0 else zerosAfterPoint (num * 10) den fuel + 1

/-- The position of the point before the first digit: `10 ^ (p - 1) ≤ num / den < 10 ^ p`. -/
def pointPosition (num den : Nat) : Int :=
  if den ≤ num then (Nat.toDigits 10 (num / den)).length
  else -(zerosAfterPoint num den 400 : Int)

/-- A decimal `digits * 10 ^ exponent`. -/
structure Digits where
  digits : Nat
  exponent : Int
  deriving DecidableEq, Repr

/-- The ratio that a decimal denotes. -/
def Digits.ratio (d : Digits) : Nat × Nat :=
  (d.digits * Nat.pow 10 d.exponent.toNat, Nat.pow 10 (-d.exponent).toNat)

/-- The neighbours on the grid of decimals with `count` digits that round to the number. -/
def gridHit? (i : Interval) (point : Int) (count : Nat) : Option Digits :=
  let exponent := point - count
  let num := i.value * Nat.pow 10 (-exponent).toNat
  let den := i.den * Nat.pow 10 exponent.toNat
  let below : Digits := ⟨num / den, exponent⟩
  let above : Digits := ⟨num / den + 1, exponent⟩
  let rest := num % den
  let hitBelow := i.contains below.ratio.1 below.ratio.2
  let hitAbove := i.contains above.ratio.1 above.ratio.2
  match hitBelow, hitAbove with
  | true, true =>
      if 2 * rest < den ∨ (2 * rest = den ∧ below.digits % 2 = 0) then
        some below
      else
        some above
  | true, false => some below
  | false, true => some above
  | false, false => none

/-- The shortest decimal that rounds to a number other than zero. -/
def shortest (x : Magnitude) : Digits :=
  let i := Interval.around x
  let point := pointPosition i.value i.den
  ((List.range' 1 17).findSome? (gridHit? i point)).getD ⟨0, 0⟩

/-- How decimals are laid out. -/
structure Layout where
  /-- The least decimal exponent that is written positionally. -/
  least : Int
  /-- The greatest decimal exponent that is written positionally. -/
  greatest : Int
  /-- The sign of an exponent that is not negative. -/
  plus : String

/-- Drops the zeros at the end of a row of digits. -/
def dropEndZeros (s : List Char) : List Char :=
  (s.reverse.dropWhile (· == '0')).reverse

namespace Layout

/-- A row of digits with the point behind its first `point` digits. -/
def positional (digits : List Char) (point : Int) : List Char :=
  if point ≤ 0 then
    '0' :: '.' :: (List.replicate (-point).toNat '0' ++ digits)
  else
    let whole := digits ++ List.replicate (point.toNat - digits.length) '0'
    let fraction := whole.drop point.toNat
    whole.take point.toNat ++ '.' :: (if fraction.isEmpty then ['0'] else fraction)

/-- A row of digits with the point behind the first one and an exponent. -/
def scientific (l : Layout) (digits : List Char) (exponent : Int) : List Char :=
  let fraction := digits.drop 1
  digits.take 1 ++ (if fraction.isEmpty then [] else '.' :: fraction) ++
    'e' :: ((if exponent < 0 then "" else l.plus) ++ toString exponent).toList

/-- The text of a number. -/
def render (l : Layout) (x : Binary64) : List Char :=
  let unsigned :=
    if x.magnitude.mantissa = 0 then ['0', '.', '0']
    else
      let d := shortest x.magnitude
      let all := Nat.toDigits 10 d.digits
      let point : Int := all.length + d.exponent
      let digits := dropEndZeros all
      if l.least ≤ point - 1 ∧ point - 1 ≤ l.greatest then
        positional digits point
      else
        l.scientific digits (point - 1)
  if x.negative then '-' :: unsigned else unsigned

end Layout
end Decimal
end Reclaim
