/-!
# The calendar

Dates of the proleptic Gregorian calendar and their day numbers, counted from
1 January of the year 0.

Main results: `ofDayNumber_dayNumber` and `dayNumber_ofDayNumber` say that dates
and day numbers determine each other.
-/

namespace Reclaim
namespace Time

/-- Every fourth year is long, but of the full centuries only every fourth. -/
def isLeapYear (year : Int) : Bool :=
  year % 4 = 0 && (year % 100 ≠ 0 || year % 400 = 0)

/-- The number of days from 1 January of the year 0 to 1 January of a year. -/
def daysBeforeYear (year : Int) : Int :=
  365 * year + (year + 3) / 4 - (year + 99) / 100 + (year + 399) / 400

/-- The lengths of the months. -/
def monthLengths (leap : Bool) : List Nat :=
  [31, if leap then 29 else 28, 31, 30, 31, 30, 31, 31, 30, 31, 30, 31]

/-- The length of the month with a number from 1 to 12. -/
def monthLength (leap : Bool) (month : Nat) : Nat :=
  ((monthLengths leap)[month - 1]?).getD 0

/-- The number of days of a year before one of its months. -/
def daysBeforeMonth (leap : Bool) (month : Nat) : Nat :=
  ((monthLengths leap).take (month - 1)).foldl (· + ·) 0

/-- A day of the calendar. -/
structure Date where
  year : Int
  month : Nat
  day : Nat
  month_pos : 1 ≤ month
  month_le : month ≤ 12
  day_pos : 1 ≤ day
  day_le : day ≤ monthLength (isLeapYear year) month
  deriving DecidableEq

/-- The month and the day of the month of the day of a year, both counted from 1. -/
def locate (leap : Bool) (dayOfYear : Nat) : Nat × Nat :=
  let month :=
    ((List.range 12).filter fun k =>
      daysBeforeMonth leap (k + 1) ≤ dayOfYear).length
  (month, dayOfYear - daysBeforeMonth leap month + 1)

/-- The number of days of a year. -/
def yearLength (leap : Bool) : Nat :=
  if leap then 366 else 365

theorem locate_mem
    (leap : Bool) {n : Nat}
    (h : n < yearLength leap) :
    1 ≤ (locate leap n).1 ∧ (locate leap n).1 ≤ 12 ∧
      1 ≤ (locate leap n).2 ∧
      (locate leap n).2 ≤ monthLength leap (locate leap n).1 ∧
      daysBeforeMonth leap (locate leap n).1 + ((locate leap n).2 - 1) = n := by
  have all : ∀ leap : Bool, ∀ n : Fin (yearLength leap),
      1 ≤ (locate leap n).1 ∧ (locate leap n).1 ≤ 12 ∧
        1 ≤ (locate leap n).2 ∧
        (locate leap n).2 ≤ monthLength leap (locate leap n).1 ∧
        daysBeforeMonth leap (locate leap n).1 + ((locate leap n).2 - 1) = n := by
    decide +kernel
  exact all leap ⟨n, h⟩

theorem locate_daysBeforeMonth
    (leap : Bool) {month day : Nat}
    (month_pos : 1 ≤ month) (month_le : month ≤ 12)
    (day_pos : 1 ≤ day) (day_le : day ≤ monthLength leap month) :
    locate leap (daysBeforeMonth leap month + (day - 1)) = (month, day) := by
  have all : ∀ leap : Bool, ∀ m : Fin 12, ∀ d : Fin 31,
      d.val + 1 ≤ monthLength leap (m + 1) →
        locate leap (daysBeforeMonth leap (m + 1) + d) =
          (m.val + 1, d.val + 1) := by
    decide +kernel
  have short : ∀ leap : Bool, ∀ m : Fin 12,
      monthLength leap (m + 1) ≤ 31 := by
    decide
  have hs := short leap ⟨month - 1, by omega⟩
  have h := all leap ⟨month - 1, by omega⟩ ⟨day - 1, by
    simp only at hs
    rw [Nat.sub_add_cancel month_pos] at hs
    omega⟩
  simp only [Nat.sub_add_cancel month_pos, Nat.sub_add_cancel day_pos] at h
  exact h day_le

theorem daysBeforeMonth_add_le
    (leap : Bool) {month day : Nat}
    (month_pos : 1 ≤ month) (month_le : month ≤ 12)
    (day_le : day ≤ monthLength leap month) :
    daysBeforeMonth leap month + day ≤ yearLength leap := by
  have all : ∀ leap : Bool, ∀ m : Fin 12,
      daysBeforeMonth leap (m + 1) + monthLength leap (m + 1) ≤
        yearLength leap := by
    decide
  have h := all leap ⟨month - 1, by omega⟩
  simp only [Nat.sub_add_cancel month_pos] at h
  omega

/-- A year has as many days as lie between its start and the next one. -/
theorem daysBeforeYear_succ (year : Int) :
    daysBeforeYear (year + 1) =
      daysBeforeYear year + yearLength (isLeapYear year) := by
  simp only [daysBeforeYear, yearLength, isLeapYear, Bool.and_eq_true,
    Bool.or_eq_true, decide_eq_true_eq]
  split <;> omega

theorem daysBeforeYear_mono
    {a b : Int} (h : a ≤ b) :
    daysBeforeYear a ≤ daysBeforeYear b := by
  simp only [daysBeforeYear]
  omega

/-- The year of a day number. -/
def yearOf (n : Int) : Int :=
  let guess := n * 400 / 146097
  if daysBeforeYear (guess + 1) ≤ n then guess + 1
  else if n < daysBeforeYear guess then guess - 1
  else guess

theorem daysBeforeYear_yearOf (n : Int) :
    daysBeforeYear (yearOf n) ≤ n ∧ n < daysBeforeYear (yearOf n + 1) := by
  simp only [yearOf]
  split
  · next h =>
      refine ⟨h, ?_⟩
      simp only [daysBeforeYear] at h ⊢
      omega
  · next h =>
      split
      · next h' =>
          rw [Int.sub_add_cancel]
          refine ⟨?_, h'⟩
          simp only [daysBeforeYear] at h h' ⊢
          omega
      · next h' => omega

theorem yearOf_eq
    {n year : Int}
    (low : daysBeforeYear year ≤ n)
    (high : n < daysBeforeYear (year + 1)) :
    yearOf n = year := by
  obtain ⟨l, h⟩ := daysBeforeYear_yearOf n
  by_cases h₁ : yearOf n < year
  · have := daysBeforeYear_mono (a := yearOf n + 1) (b := year) (by omega)
    omega
  by_cases h₂ : year < yearOf n
  · have := daysBeforeYear_mono (a := year + 1) (b := yearOf n) (by omega)
    omega
  · omega

/-- A day lies in a year or after it if it is not before the first day of the year. -/
theorem le_yearOf_iff {year n : Int} :
    year ≤ yearOf n ↔ daysBeforeYear year ≤ n := by
  obtain ⟨low, high⟩ := daysBeforeYear_yearOf n
  constructor
  · intro h
    exact Int.le_trans (daysBeforeYear_mono h) low
  · intro h
    apply Int.not_lt.1
    intro hlt
    have := daysBeforeYear_mono (a := yearOf n + 1) (b := year) (by omega)
    omega

namespace Date

/-- The date with the given numbers, if there is one. -/
def ofNumbers? (year : Int) (month day : Nat) : Option Date :=
  if h : 1 ≤ month ∧ month ≤ 12 ∧ 1 ≤ day ∧
      day ≤ monthLength (isLeapYear year) month then
    some ⟨year, month, day, h.1, h.2.1, h.2.2.1, h.2.2.2⟩
  else
    none

/-- The number of days from 1 January of the year 0 to a date. -/
def dayNumber (d : Date) : Int :=
  daysBeforeYear d.year +
    ((daysBeforeMonth (isLeapYear d.year) d.month + (d.day - 1) : Nat) : Int)

theorem dayOfYear_lt (n : Int) :
    (n - daysBeforeYear (yearOf n)).toNat <
      yearLength (isLeapYear (yearOf n)) := by
  obtain ⟨low, high⟩ := daysBeforeYear_yearOf n
  rw [daysBeforeYear_succ] at high
  omega

/-- The date with a day number. -/
def ofDayNumber (n : Int) : Date :=
  let year := yearOf n
  let place := locate (isLeapYear year) (n - daysBeforeYear year).toNat
  have h := locate_mem (isLeapYear year) (dayOfYear_lt n)
  ⟨year, place.1, place.2, h.1, h.2.1, h.2.2.1, h.2.2.2.1⟩

theorem dayNumber_ofDayNumber (n : Int) :
    (ofDayNumber n).dayNumber = n := by
  have h := locate_mem (isLeapYear (yearOf n)) (dayOfYear_lt n)
  have low := (daysBeforeYear_yearOf n).1
  simp only [ofDayNumber, dayNumber]
  rw [h.2.2.2.2]
  omega

theorem ofDayNumber_dayNumber (d : Date) :
    ofDayNumber d.dayNumber = d := by
  obtain ⟨year, month, day, mp, ml, dp, dl⟩ := d
  have hb := daysBeforeMonth_add_le (isLeapYear year) mp ml dl
  have hy : yearOf (dayNumber ⟨year, month, day, mp, ml, dp, dl⟩) = year := by
    apply yearOf_eq
    · simp only [dayNumber]
      omega
    · rw [daysBeforeYear_succ]
      simp only [dayNumber]
      omega
  have hl := locate_daysBeforeMonth (isLeapYear year) mp ml dp dl
  have hd : (dayNumber ⟨year, month, day, mp, ml, dp, dl⟩ -
      daysBeforeYear year).toNat =
        daysBeforeMonth (isLeapYear year) month + (day - 1) := by
    simp only [dayNumber]
    omega
  simp only [ofDayNumber, mk.injEq]
  rw [hy, hd, hl]
  simp

end Date
end Time
end Reclaim
