import Mathlib.Algebra.Order.Group.Unbundled.Int
import Reclaim.Proofs.Text.Order
import Reclaim.Proofs.Time.Order
import Reclaim.Proofs.Time.Timestamp

/-!
# The order of timestamps

The fixed form puts the year first and the milliseconds last, each number with
a fixed width, so for the years with four digits the texts are ordered as the
instants are to whole milliseconds.

Main result: `compare_text`.
-/

namespace Reclaim
namespace Time

theorem compare_mul_add
    {a b c d : Nat} (hb : b < 10) (hd : d < 10) :
    compare (a * 10 + b) (c * 10 + d) = (compare a c).then (compare b d) := by
  rcases Nat.lt_trichotomy a c with h | h | h
  · rw [Nat.compare_eq_lt.2 h, Nat.compare_eq_lt.2 (by omega)]
    rfl
  · subst h
    rw [Nat.compare_eq_eq.2 rfl, Ordering.eq_then]
    simp only [Nat.compare_eq_ite_lt]
    grind
  · rw [Nat.compare_eq_gt.2 h, Nat.compare_eq_gt.2 (by omega)]
    rfl

/-- Digits of one width are ordered as their numbers. -/
theorem compare_fixedDigits (width m n : Nat) :
    compare (fixedDigits width m) (fixedDigits width n) =
      compare (m % 10 ^ width) (n % 10 ^ width) := by
  induction width generalizing m n with
  | zero => simp [fixedDigits, Nat.mod_one]
  | succ width ih =>
      have last : compare [Char.ofNat ('0'.toNat + m % 10)]
          [Char.ofNat ('0'.toNat + n % 10)] = compare (m % 10) (n % 10) := by
        have all : ∀ a b : Fin 10, compare [Char.ofNat ('0'.toNat + a)]
            [Char.ofNat ('0'.toNat + b)] = compare a.val b.val := by
          decide
        exact all ⟨m % 10, Nat.mod_lt m (by decide)⟩
          ⟨n % 10, Nat.mod_lt n (by decide)⟩
      rw [fixedDigits, fixedDigits,
        Text.compare_append_of_length_eq (by simp), ih, last, mod_pow_succ,
        mod_pow_succ,
        compare_mul_add (Nat.mod_lt m (by decide)) (Nat.mod_lt n (by decide))]

theorem compare_fixedDigits_append
    {width m n : Nat} (hm : m < 10 ^ width) (hn : n < 10 ^ width)
    (x y : List Char) :
    compare (fixedDigits width m ++ x) (fixedDigits width n ++ y) =
      (compare m n).then (compare x y) := by
  rw [Text.compare_append_of_length_eq (by simp), compare_fixedDigits,
    Nat.mod_eq_of_lt hm, Nat.mod_eq_of_lt hn]

namespace Date

theorem dayNumber_lt (d : Date) :
    d.dayNumber < daysBeforeYear (d.year + 1) := by
  have := daysBeforeMonth_add_le (isLeapYear d.year) d.month_pos d.month_le
    d.day_le
  have := d.day_pos
  rw [daysBeforeYear_succ, dayNumber]
  omega

theorem daysBeforeMonth_add_le_of_lt
    (leap : Bool) {month later day : Nat}
    (month_pos : 1 ≤ month) (h : month < later) (later_le : later ≤ 12)
    (day_le : day ≤ monthLength leap month) :
    daysBeforeMonth leap month + day ≤ daysBeforeMonth leap later := by
  have all : ∀ leap : Bool, ∀ m n : Fin 13, 1 ≤ m.val → m.val < n.val →
      daysBeforeMonth leap m + monthLength leap m ≤ daysBeforeMonth leap n := by
    decide
  have := all leap ⟨month, by omega⟩ ⟨later, by omega⟩ month_pos h
  simp only at this
  omega

/-- An earlier day has an earlier date. -/
theorem lt_of_dayNumber_lt
    {d e : Date} (h : d.dayNumber < e.dayNumber) :
    d.year < e.year ∨ d.year = e.year ∧
      (d.month < e.month ∨ d.month = e.month ∧ d.day < e.day) := by
  by_contra hn
  have hd := d.day_pos
  have he := e.day_pos
  rcases Int.lt_trichotomy d.year e.year with hy | hy | hy
  · exact hn (.inl hy)
  · rcases Nat.lt_trichotomy d.month e.month with hm | hm | hm
    · exact hn (.inr ⟨hy, .inl hm⟩)
    · have : ¬ d.day < e.day := fun hd => hn (.inr ⟨hy, .inr ⟨hm, hd⟩⟩)
      rw [dayNumber, dayNumber, hy, hm] at h
      omega
    · have := daysBeforeMonth_add_le_of_lt (isLeapYear e.year) e.month_pos hm
        d.month_le e.day_le
      rw [dayNumber, dayNumber, hy] at h
      omega
  · have := e.dayNumber_lt
    have := daysBeforeYear_mono (a := e.year + 1) (b := d.year) (by omega)
    rw [dayNumber] at h
    omega

end Date

namespace Instant

theorem text_truncateToMillis (t : Instant) :
    t.truncateToMillis.text = t.text := by
  have hday : t.truncateToMillis.secondOfDay = t.secondOfDay := rfl
  have hdate : t.truncateToMillis.date = t.date := rfl
  have hleap : t.nanos / 1000000 * 1000000 / nanosPerSecond =
      t.nanos / nanosPerSecond := by
    simp only [nanosPerSecond]
    omega
  have hmillis : t.nanos / 1000000 * 1000000 % nanosPerSecond / 1000000 =
      t.nanos % nanosPerSecond / 1000000 := by
    simp only [nanosPerSecond]
    omega
  simp only [text, textChars, wholeSeconds, secondOfMinute, hday, hdate]
  simp only [truncateToMillis, hleap, hmillis]

/-- The numbers of the fixed form from the year to the milliseconds. -/
def clock (t : Instant) : List Nat :=
  [t.year.toNat, t.date.month, t.date.day, t.secondOfDay / 3600,
    t.secondOfDay / 60 % 60, t.secondOfMinute,
    t.nanos % nanosPerSecond / 1000000]

/-- The fixed form is ordered as its numbers are. -/
theorem compare_textChars
    {t u : Instant} (ht : t.HasFourDigitYear) (hu : u.HasFourDigitYear) :
    compare t.textChars u.textChars = compare t.clock u.clock := by
  obtain ⟨tm, td, th, tmin, ts, tms⟩ := t.clock_bounds
  obtain ⟨um, ud, uh, umin, us, ums⟩ := u.clock_bounds
  have ty : t.year.toNat < 10 ^ 4 := by have := ht.2; omega
  have uy : u.year.toNat < 10 ^ 4 := by have := hu.2; omega
  simp only [textChars, wholeSeconds, yearDigits_year ht, yearDigits_year hu,
    List.append_assoc, List.cons_append]
  rw [compare_fixedDigits_append ty uy, Text.compare_cons_self,
    compare_fixedDigits_append tm um, Text.compare_cons_self,
    compare_fixedDigits_append td ud, Text.compare_cons_self,
    compare_fixedDigits_append th uh, Text.compare_cons_self,
    compare_fixedDigits_append tmin umin, Text.compare_cons_self,
    compare_fixedDigits_append ts us, Text.compare_cons_self,
    compare_fixedDigits_append tms ums, Text.compare_cons_self]
  simp only [clock, List.compare_cons_cons]
  rfl

/-- An earlier instant has an earlier date or an earlier time of day. -/
theorem clock_lt_of_lt
    {t u : Instant} (ht : t.HasFourDigitYear)
    (h : t.truncateToMillis < u.truncateToMillis) :
    compare t.clock u.clock = .lt := by
  have h : compare t.truncateToMillis u.truncateToMillis = .lt := h
  have hyear : 0 ≤ t.date.year := ht.1
  rw [show compare t.truncateToMillis u.truncateToMillis =
      (compare t.seconds u.seconds).then
        (compare (t.nanos / 1000000 * 1000000)
          (u.nanos / 1000000 * 1000000)) from rfl,
    Ordering.then_eq_lt, Int.compare_eq_lt, Int.compare_eq_eq,
    Nat.compare_eq_lt] at h
  simp only [clock, List.compare_cons_cons, Ordering.then_eq_lt,
    Nat.compare_eq_lt, Nat.compare_eq_eq]
  have st := t.seconds_eq
  have su := u.seconds_eq
  have lt := t.secondOfDay_lt
  have lu := u.secondOfDay_lt
  have nt := t.nanos_lt
  have nu := u.nanos_lt
  have ct := t.secondOfMinute_cases
  have cu := u.secondOfMinute_cases
  rcases lt_or_ge t.dayNumber u.dayNumber with hday | hday
  · have hdate := Date.lt_of_dayNumber_lt (d := t.date) (e := u.date)
      (by rwa [dayNumber_date, dayNumber_date])
    simp only [year]
    omega
  · have hsame : t.dayNumber = u.dayNumber := by
      simp only [secondsPerDay] at st su
      omega
    have hdate : t.date = u.date := by rw [date, date, hsame]
    simp only [year, hdate, lt_irrefl, false_or, true_and]
    rw [hsame] at st
    simp only [nanosPerSecond] at *
    omega

/-- The fixed form is ordered as the instants to whole milliseconds. -/
theorem compare_text
    {t u : Instant} (ht : t.HasFourDigitYear) (hu : u.HasFourDigitYear) :
    compare t.text u.text =
      compare t.truncateToMillis u.truncateToMillis := by
  have chars : compare t.text u.text = compare t.clock u.clock := by
    rw [Text.compare_toList, text, text, String.toList_ofList,
      String.toList_ofList, compare_textChars ht hu]
  cases h : compare t.truncateToMillis u.truncateToMillis with
  | lt => rw [chars, clock_lt_of_lt ht h]
  | eq =>
      have heq : t.truncateToMillis = u.truncateToMillis :=
        Std.LawfulEqOrd.eq_of_compare h
      rw [← text_truncateToMillis t, ← text_truncateToMillis u, heq]
      exact Std.ReflCmp.compare_self
  | gt =>
      rw [chars]
      exact Std.OrientedCmp.gt_of_lt
        (clock_lt_of_lt hu (Std.OrientedCmp.lt_of_gt h))

end Instant
end Time
end Reclaim
