/-!
# Binary numbers of 64 bits

The finite nonnegative numbers `mantissa * 2 ^ exponent` with a mantissa below
`2 ^ 53` and an exponent from `-1074` on, computed exactly: every operation
forms a ratio of natural numbers and rounds it to the nearest such number, a
tie to the even mantissa.  A number with an exponent above 971 is too large for
64 bits.

Main result: `mantissa_ofRatio_lt` bounds every mantissa.
-/

namespace Reclaim
namespace Decimal

/-- The number `mantissa * 2 ^ exponent`. -/
structure Magnitude where
  mantissa : Nat
  exponent : Int
  deriving DecidableEq, Repr

/-- The quotient rounded to the nearest integer, a tie to the even one. -/
def roundDiv (num den : Nat) : Nat :=
  let q := num / den
  let r := num % den
  if den < 2 * r ∨ (2 * r = den ∧ q % 2 = 1) then q + 1 else q

/-- The ratio `num / den` in units of `2 ^ exponent`, as a ratio. -/
def scaled (num den : Nat) (exponent : Int) : Nat × Nat :=
  if 0 ≤ exponent then (num, den * Nat.pow 2 exponent.toNat)
  else (num * Nat.pow 2 (-exponent).toNat, den)

namespace Magnitude

/-- The bound of every mantissa: 53 bits. -/
def mantissaBound : Nat := Nat.pow 2 53

/-- The least mantissa with 53 bits. -/
def leastFullMantissa : Nat := Nat.pow 2 52

/-- Zero. -/
def zero : Magnitude := ⟨0, -1074⟩

/-- The least exponent at which the ratio needs no more than 53 bits. -/
def exponentOf (num den : Nat) : Int :=
  let low : Int := (num.log2 : Int) - den.log2 - 53
  let units := scaled num den low
  max (-1074) (if units.1 / units.2 < mantissaBound then low else low + 1)

/-- The number nearest to `num / den`. -/
def ofRatio (num den : Nat) : Magnitude :=
  if num = 0 then zero
  else
    let exponent := exponentOf num den
    let units := scaled num den exponent
    let mantissa := roundDiv units.1 units.2
    if mantissa < mantissaBound then ⟨mantissa, exponent⟩
    else ⟨leastFullMantissa, exponent + 1⟩

/-- The number nearest to a natural number. -/
def ofNat (n : Nat) : Magnitude :=
  ofRatio n 1

/-- The number nearest to a power of ten. -/
def tenToThe (k : Nat) : Magnitude :=
  ofNat (Nat.pow 10 k)

/-- The numerator of the number as a ratio. -/
def num (x : Magnitude) : Nat :=
  x.mantissa * Nat.pow 2 x.exponent.toNat

/-- The denominator of the number as a ratio. -/
def den (x : Magnitude) : Nat :=
  Nat.pow 2 (-x.exponent).toNat

/-- The number nearest to a product. -/
def mul (x y : Magnitude) : Magnitude :=
  ofRatio (x.num * y.num) (x.den * y.den)

/-- The number nearest to a quotient. -/
def div (x y : Magnitude) : Magnitude :=
  ofRatio (x.num * y.den) (x.den * y.num)

/-- The number fits into 64 bits. -/
def isFinite (x : Magnitude) : Bool :=
  x.exponent ≤ 971

/-- Every mantissa has at most 53 bits. -/
theorem mantissa_ofRatio_lt (num den : Nat) :
    (ofRatio num den).mantissa < mantissaBound := by
  simp only [ofRatio]
  split
  · decide
  · split
    · next h => exact h
    · exact (by decide : leastFullMantissa < mantissaBound)

end Magnitude

/-- A signed number of 64 bits; zero has a sign too. -/
structure Binary64 where
  negative : Bool
  magnitude : Magnitude
  deriving DecidableEq, Repr

end Decimal
end Reclaim
