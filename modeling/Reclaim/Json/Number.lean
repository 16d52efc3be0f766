import Reclaim.Json.Basic
import Reclaim.Json.Token
import Reclaim.Text.Integer

/-!
# The value of a written number

The digits of a number are collected into a significand of 64 bits.  A whole
number that fits is an integer, except that minus zero and numbers below the
least signed number of 64 bits are not.  All others are binary numbers: digits
of the whole part that no longer fit count as powers of ten, digits of the
fraction that no longer fit are dropped, and the significand is then multiplied
or divided by a power of ten, both being rounded first.

Main result: `ofText?_digits` says that a whole number of 64 bits is read as
itself.
-/

namespace Reclaim
namespace Json

/-- Appends digits to a significand while it fits, and returns the digits that do not. -/
def absorb (significand : Nat) : List Char → Nat × List Char
  | [] => (significand, [])
  | c :: r =>
      if significand * 10 + Text.digitValue c ≤ Text.maxUnsigned64 then
        absorb (significand * 10 + Text.digitValue c) r
      else
        (significand, c :: r)

/-- Divides by a power of ten, in steps of at most `10 ^ 308`. -/
def divideByTenToThe (x : Decimal.Magnitude) (k : Nat) : Decimal.Magnitude :=
  if k ≤ 308 then x.div (Decimal.Magnitude.tenToThe k)
  else if x.mantissa = 0 then x
  else
    divideByTenToThe (x.div (Decimal.Magnitude.tenToThe 308)) (k - 308)
termination_by k

/-- The binary number for a significand and a power of ten; none if it is too large. -/
def scale? (significand : Nat) (exponent : Int) : Option Decimal.Magnitude :=
  let x := Decimal.Magnitude.ofNat significand
  if exponent < 0 then
    some (divideByTenToThe x (-exponent).toNat)
  else if exponent ≤ 308 then
    let y := x.mul (Decimal.Magnitude.tenToThe exponent.toNat)
    if y.isFinite then some y else none
  else if significand = 0 then some x
  else none

namespace Number

/-- The value of a whole number that fits into 64 bits. -/
def ofWhole (negative : Bool) (significand : Nat) : Number :=
  if negative then
    if 1 ≤ significand ∧ significand ≤ Text.maxSigned64 + 1 then
      .integer (-(significand : Int))
    else
      .float ⟨true, Decimal.Magnitude.ofNat significand⟩
  else
    .integer significand

/-- The value of a written number; none if it is too large. -/
def ofText? (t : NumberText) : Option Number :=
  let whole := absorb 0 t.whole
  if t.fraction.isEmpty ∧ t.exponent.isNone ∧ whole.2.isEmpty then
    some (ofWhole t.negative whole.1)
  else
    let all := absorb whole.1 t.fraction
    let taken := t.fraction.length - all.2.length
    let exponent : Int :=
      (whole.2.length : Int) - taken + t.exponent.getD 0
    (scale? all.1 exponent).map fun x => .float ⟨t.negative, x⟩

end Number

theorem appendDigits_eq_absorb
    {n m : Nat} {s : List Char}
    (digits : ∀ c ∈ s, Text.isDigit c = true)
    (h : s.foldl (fun n c => n * 10 + Text.digitValue c) n = m)
    (hm : m ≤ Text.maxUnsigned64) :
    absorb n s = (m, []) := by
  induction s generalizing n with
  | nil => simp_all [absorb]
  | cons c r ih =>
      have hle := Text.le_foldl_digits (n * 10 + Text.digitValue c) r
      rw [List.foldl_cons] at h
      rw [h] at hle
      rw [absorb, if_pos (Nat.le_trans hle hm)]
      exact ih (fun d hd => digits d (by simp [hd])) h

/-- A whole number of 64 bits is read as itself. -/
theorem ofText?_digits
    {s : List Char}
    (digits : ∀ c ∈ s, Text.isDigit c = true)
    (fits : Text.decimalValue s ≤ Text.maxUnsigned64) :
    Number.ofText? ⟨false, s, [], none⟩ =
      some (.integer (Text.decimalValue s)) := by
  simp [Number.ofText?, appendDigits_eq_absorb digits rfl fits,
    Number.ofWhole, Text.decimalValue]

end Json
end Reclaim
