import Mathlib.Order.Defs.LinearOrder
import Reclaim.Time.Instant

/-!
# The order of instants

Instants are compared by seconds and then by nanoseconds.  This is a linear
order, and comparing two instants decides it.
-/

namespace Reclaim
namespace Time
namespace Instant

instance : Std.TransOrd Instant :=
  inferInstanceAs (Std.TransCmp
    (compareLex (compareOn Instant.seconds) (compareOn Instant.nanos)))

instance : Std.LawfulEqOrd Instant where
  eq_of_compare {a b} h := by
    have h : (compare a.seconds b.seconds).then
        (compare a.nanos b.nanos) = .eq := h
    rw [Ordering.then_eq_eq, Std.LawfulEqOrd.compare_eq_iff_eq,
      Std.LawfulEqOrd.compare_eq_iff_eq] at h
    obtain ⟨hs, hn⟩ := h
    cases a
    cases b
    cases hs
    cases hn
    rfl

instance : LE Instant := leOfOrd

instance : LT Instant := ltOfOrd

instance : LinearOrder Instant where
  toOrd := inferInstance
  le_refl a := Std.ReflCmp.isLE_rfl
  le_trans a b c hab hbc := Std.TransCmp.isLE_trans hab hbc
  lt_iff_le_not_ge a b := by
    constructor
    · intro h
      exact ⟨Ordering.isLE_of_eq_lt h, Std.OrientedCmp.not_isLE_of_lt h⟩
    · rintro ⟨_, h⟩
      exact Std.OrientedCmp.lt_of_not_isLE h
  le_antisymm a b hab hba :=
    Std.LawfulEqOrd.eq_of_compare (Std.OrientedCmp.isLE_antisymm hab hba)
  le_total a b := by
    cases h : compare a b with
    | lt => exact .inl (Ordering.isLE_of_eq_lt h)
    | eq => exact .inl (Ordering.isLE_of_eq_eq h)
    | gt =>
        exact .inr (Ordering.isLE_of_eq_lt (Std.OrientedCmp.lt_of_gt h))
  toDecidableLE a b := inferInstanceAs (Decidable ((compare a b).isLE = true))
  toDecidableEq := inferInstance
  toDecidableLT a b := inferInstanceAs (Decidable (compare a b = .lt))
  compare_eq_compareOfLessAndEq a b := by
    unfold compareOfLessAndEq
    by_cases hlt : a < b
    · rw [if_pos hlt]
      exact hlt
    · by_cases hab : a = b
      · subst hab
        rw [if_neg hlt, if_pos rfl]
        exact Std.ReflCmp.compare_self
      · rw [if_neg hlt, if_neg hab]
        have hne : compare a b ≠ .eq :=
          fun h => hab (Std.LawfulEqOrd.eq_of_compare h)
        have hnl : compare a b ≠ .lt := hlt
        cases h : compare a b with
        | lt => exact absurd h hnl
        | eq => exact absurd h hne
        | gt => rfl

theorem le_iff {t u : Instant} :
    t ≤ u ↔
      t.seconds < u.seconds ∨ t.seconds = u.seconds ∧ t.nanos ≤ u.nanos := by
  have h : t ≤ u ↔ ((compare t.seconds u.seconds).then
    (compare t.nanos u.nanos)).isLE := Iff.rfl
  rw [h, Ordering.isLE_then_iff_or, Int.compare_eq_lt, Int.compare_eq_eq,
    Nat.isLE_compare]

theorem zero_lt_two_mul_nanosPerSecond : 0 < 2 * nanosPerSecond := by
  decide

/-- No leap second is a whole second. -/
theorem leap_of_nanos_zero
    (n : Int) (h : nanosPerSecond ≤ 0) : n % 60 = 59 :=
  absurd h (by decide)

/-- The instant at a whole second. -/
def wholeSecond (n : Int) : Instant :=
  ⟨n, 0, zero_lt_two_mul_nanosPerSecond, leap_of_nanos_zero n⟩

/-- Half a second into the leap second at the end of 2016. -/
def leapOf2016 : Instant :=
  ⟨1483228799, 1500000000, by decide, by decide⟩

end Instant
end Time
end Reclaim
