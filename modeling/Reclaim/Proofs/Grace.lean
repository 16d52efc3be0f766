import Mathlib.Tactic.ByContra
import Mathlib.Tactic.SplitIfs
import Reclaim.Grace
import Reclaim.Proofs.Time.Order
import Reclaim.Proofs.Time.Timestamp

/-!
# Grace periods and the order of dates

Of two dates the earlier one should be past the grace period wherever the later
one is.  Differences of instants do not quite keep their order, though: a leap
second shares its count with the second before it, and whether it is counted on
top of that one or with the one after it depends on the times of day alone.  So
there are dates around leap seconds, and around midnight if the reference itself
is a leap second, of which the later one is farther from the reference.

Main results: `nanosSince_lt_iff` tells these dates, and `expiry_in_order_iff`
says that they are the only ones whose expiry is out of order.
-/

namespace Reclaim
namespace Time
namespace Instant

/-! ## Leap seconds in differences -/

/-- The instant lies in a leap second. -/
def IsLeap (t : Instant) : Prop :=
  nanosPerSecond ≤ t.nanos

instance (t : Instant) : Decidable t.IsLeap :=
  inferInstanceAs (Decidable (_ ≤ _))

theorem IsLeap.secondOfDay_mod {t : Instant} (h : t.IsLeap) :
    t.secondOfDay % 60 = 59 := by
  have := t.leap_only_at_59 h
  simp only [secondOfDay, secondsPerDay]
  omega

/-- What leap seconds change in the difference between the counts of two instants. -/
def leapCorrection (r d : Instant) : Int :=
  if d.secondOfDay < r.secondOfDay ∧ d.IsLeap then nanosPerSecond
  else if r.secondOfDay < d.secondOfDay ∧ r.IsLeap then -nanosPerSecond
  else 0

theorem nanosSince_eq (r d : Instant) :
    r.nanosSince d =
      (r.seconds - d.seconds) * nanosPerSecond + (r.nanos - d.nanos) +
        leapCorrection r d := by
  simp only [nanosSince, leapCorrection, IsLeap]
  split_ifs <;> omega

theorem leapCorrection_of_before
    {r d : Instant} (h : d.secondOfDay < r.secondOfDay) :
    leapCorrection r d = if d.IsLeap then (nanosPerSecond : Int) else 0 := by
  have hn : ¬ r.secondOfDay < d.secondOfDay := by omega
  simp only [leapCorrection, h, hn, true_and, false_and, if_false]

theorem leapCorrection_of_not_before
    {r d : Instant} (h : ¬ d.secondOfDay < r.secondOfDay) :
    leapCorrection r d =
      if r.secondOfDay < d.secondOfDay ∧ r.IsLeap then -(nanosPerSecond : Int)
      else 0 := by
  simp only [leapCorrection, h, false_and, if_false]

/-- The later date is farther away if what is corrected outweighs the time between the dates. -/
theorem nanosSince_lt_iff_gap {r d e : Instant} :
    r.nanosSince d < r.nanosSince e ↔
      (e.seconds - d.seconds) * 1000000000 + (e.nanos - d.nanos) +
        leapCorrection r d < leapCorrection r e := by
  rw [nanosSince_eq, nanosSince_eq]
  simp only [nanosPerSecond]
  omega

/-! ## Dates that overtake earlier ones -/

/-- Seen from `r`, the date `e` is farther away than the date `d` that is not after it. -/
inductive Overtakes (r d e : Instant) : Prop
  /--
  `e` lies in a leap second and `d` farther in the second before it, with which
  the leap second is counted where the reference is later in the day.
  -/
  | intoLeap
      (same : e.seconds = d.seconds)
      (leap : e.IsLeap)
      (plain : ¬ d.IsLeap)
      (farther : e.nanos < d.nanos + nanosPerSecond)
      (time : d.secondOfDay < r.secondOfDay)
  /--
  `d` lies in a leap second and `e` less far in the second after it, with which
  the leap second is counted where the reference is not later in the day.  A
  leap second of the reference at the time of `d` sets them apart, except at the
  end of the day.
  -/
  | outOfLeap
      (next : e.seconds = d.seconds + 1)
      (farther : e.nanos + nanosPerSecond < d.nanos)
      (time : r.secondOfDay ≤ d.secondOfDay)
      (atMidnight : r.IsLeap → r.secondOfDay = d.secondOfDay →
        e.secondOfDay < d.secondOfDay)
  /--
  `d` and `e` are less than a second apart and midnight lies between them; the
  reference is a leap second, which counts for the dates later in the day only.
  -/
  | overMidnight
      (leap : r.IsLeap)
      (time : r.secondOfDay < d.secondOfDay)
      (midnight : d.dayNumber < e.dayNumber)
      (close : (e.seconds - d.seconds) * nanosPerSecond + e.nanos <
        d.nanos + nanosPerSecond)

section Overtaking

variable {r d e : Instant}

theorem Overtakes.isLeap (h : Overtakes r d e) :
    r.IsLeap ∨ d.IsLeap ∨ e.IsLeap := by
  cases h with
  | intoLeap same leap plain farther time => exact .inr (.inr leap)
  | outOfLeap next farther time atMidnight =>
      refine .inr (.inl ?_)
      simp only [IsLeap]
      omega
  | overMidnight leap time midnight close => exact .inl leap

/-- Within one second the dates before a leap second and those in it are out of order. -/
theorem overtakes_of_same_second
    (same : d.seconds = e.seconds) (hn : d.nanos ≤ e.nanos)
    (hlt : r.nanosSince d < r.nanosSince e) :
    Overtakes r d e := by
  have time : e.secondOfDay = d.secondOfDay := by
    rw [secondOfDay, secondOfDay, same]
  rw [nanosSince_lt_iff_gap, same] at hlt
  by_cases before : d.secondOfDay < r.secondOfDay
  · rw [leapCorrection_of_before before,
      leapCorrection_of_before (time ▸ before)] at hlt
    split_ifs at hlt with hd he he
    · omega
    · omega
    · refine .intoLeap same.symm he hd ?_ before
      simp only [nanosPerSecond] at *
      omega
    · omega
  · rw [leapCorrection_of_not_before before,
      leapCorrection_of_not_before (time ▸ before), time] at hlt
    omega

theorem leapCorrection_nonneg (h : d.secondOfDay ≤ r.secondOfDay) :
    0 ≤ leapCorrection r d := by
  have hn : ¬ r.secondOfDay < d.secondOfDay := by omega
  simp only [leapCorrection, hn, false_and, if_false, nanosPerSecond]
  split_ifs <;> omega

/-- A correction for an earlier time of day is none or a leap second of the date. -/
theorem leapCorrection_le (r d : Instant) :
    leapCorrection r d ≤ if d.IsLeap then (nanosPerSecond : Int) else 0 := by
  unfold leapCorrection
  simp only [nanosPerSecond]
  split_ifs <;> grind

/-- What seems to go back from one second to the next comes out of a leap second. -/
theorem next_of_gap_neg
    (later : d.seconds < e.seconds)
    (h : (e.seconds - d.seconds) * 1000000000 + (e.nanos - d.nanos) < 0) :
    e.seconds = d.seconds + 1 ∧ e.nanos + nanosPerSecond < d.nanos := by
  have := d.nanos_lt
  simp only [nanosPerSecond] at *
  omega

/-- Between seconds the dates that come out of a leap second or around midnight are out of order. -/
theorem overtakes_of_later_second
    (later : d.seconds < e.seconds)
    (hlt : r.nanosSince d < r.nanosSince e) :
    Overtakes r d e := by
  have sd := d.seconds_eq
  have se := e.seconds_eq
  have nd := d.nanos_lt
  have ne := e.nanos_lt
  have ld := d.secondOfDay_lt
  have le := e.secondOfDay_lt
  rw [nanosSince_lt_iff_gap] at hlt
  simp only [secondsPerDay, nanosPerSecond] at sd se nd ne
  by_cases before : d.secondOfDay < r.secondOfDay
  · -- No correction makes up for the second between the dates.
    have hc := leapCorrection_le r e
    rw [leapCorrection_of_before before] at hlt
    simp only [IsLeap, nanosPerSecond] at hlt hc
    split_ifs at hlt hc <;> omega
  · rw [leapCorrection_of_not_before before] at hlt
    by_cases before' : e.secondOfDay < r.secondOfDay
    · -- Midnight lies between the dates, and no leap second follows it so soon.
      have plain : ¬ e.IsLeap := by
        intro he
        have := he.secondOfDay_mod
        rw [leapCorrection_of_before before', if_pos he] at hlt
        simp only [nanosPerSecond] at hlt
        split_ifs at hlt <;> omega
      rw [leapCorrection_of_before before', if_neg plain] at hlt
      split_ifs at hlt with hd
      · refine .overMidnight hd.2 hd.1 (by omega) ?_
        simp only [nanosPerSecond] at *
        omega
      · obtain ⟨next, farther⟩ := next_of_gap_neg later (by omega)
        exact .outOfLeap next farther (by omega) fun _ _ => by omega
    · rw [leapCorrection_of_not_before before'] at hlt
      split_ifs at hlt with hd he he
      · obtain ⟨next, farther⟩ := next_of_gap_neg later (by omega)
        exact .outOfLeap next farther (by omega) fun _ same => by omega
      · have same : e.secondOfDay = r.secondOfDay := by
          have := not_and'.1 he hd.2
          omega
        refine .overMidnight hd.2 hd.1 (by omega) ?_
        simp only [nanosPerSecond] at *
        omega
      · simp only [nanosPerSecond] at hlt
        omega
      · obtain ⟨next, farther⟩ := next_of_gap_neg later (by omega)
        refine .outOfLeap next farther (by omega) fun leap same => ?_
        have := not_and'.1 he leap
        omega

/-- The dates that overtake earlier ones are those that are farther from the reference. -/
theorem nanosSince_lt_iff (h : d ≤ e) :
    r.nanosSince d < r.nanosSince e ↔ Overtakes r d e := by
  constructor
  · intro hlt
    rcases le_iff.1 h with later | ⟨same, hn⟩
    · exact overtakes_of_later_second later hlt
    · exact overtakes_of_same_second same hn hlt
  · intro ho
    have sd := d.seconds_eq
    have se := e.seconds_eq
    have ld := d.secondOfDay_lt
    have le := e.secondOfDay_lt
    rw [nanosSince_lt_iff_gap]
    simp only [secondsPerDay] at sd se
    cases ho with
    | intoLeap same leap plain farther time =>
        have time' : e.secondOfDay < r.secondOfDay := by
          rwa [secondOfDay, same]
        rw [leapCorrection_of_before time, leapCorrection_of_before time',
          if_neg plain, if_pos leap]
        simp only [nanosPerSecond] at *
        omega
    | outOfLeap next farther time atMidnight =>
        have hc : leapCorrection r d ≤ leapCorrection r e := by
          rw [leapCorrection_of_not_before (Nat.not_lt.2 time)]
          by_cases before : e.secondOfDay ≤ r.secondOfDay
          · have := leapCorrection_nonneg before
            simp only [nanosPerSecond]
            split_ifs <;> omega
          · rw [leapCorrection_of_not_before (by omega)]
            simp only [nanosPerSecond]
            split_ifs <;> grind
        simp only [nanosPerSecond] at farther
        omega
    | overMidnight leap time midnight close =>
        have := leap.secondOfDay_mod
        have nd := d.nanos_lt
        simp only [nanosPerSecond] at close nd
        have hd : leapCorrection r d = -(nanosPerSecond : Int) := by
          rw [leapCorrection_of_not_before (by omega), if_pos ⟨time, leap⟩]
        have he : 0 ≤ leapCorrection r e :=
          leapCorrection_nonneg (by omega)
        rw [hd]
        simp only [nanosPerSecond]
        omega

end Overtaking
end Instant
end Time

namespace GracePolicy

open Time.Instant

/--
With any grace period an earlier date is expired if a later one is, unless the
later one overtakes it, which takes a leap second.
-/
theorem expiry_in_order_iff {r d e : Time.Instant} (h : d ≤ e) :
    ((∀ nanos : Int, GracePolicy.isExpired ⟨r, nanos⟩ e →
        GracePolicy.isExpired ⟨r, nanos⟩ d) ↔ ¬ Overtakes r d e) ∧
      (Overtakes r d e → r.IsLeap ∨ d.IsLeap ∨ e.IsLeap) := by
  refine ⟨?_, Overtakes.isLeap⟩
  rw [← nanosSince_lt_iff h]
  simp only [isExpired, decide_eq_true_eq]
  constructor
  · intro inOrder hlt
    exact Int.lt_irrefl _ (inOrder (r.nanosSince d) hlt)
  · intro hge nanos he
    omega

section Sample

/-- A quarter of a second into a leap second at noon. -/
def noonLeap : Time.Instant :=
  ⟨43199, 1250000000, by decide, by decide⟩

/--
Seen from the next afternoon a leap second at noon expires before the second
after it, but from the next morning it does not with every grace period.
-/
theorem expiry_in_order_of_noonLeap :
    noonLeap ≤ .wholeSecond 43200 ∧
      (∀ nanos : Int,
        GracePolicy.isExpired ⟨.wholeSecond 136400, nanos⟩ (.wholeSecond 43200) →
          GracePolicy.isExpired ⟨.wholeSecond 136400, nanos⟩ noonLeap) ∧
      ¬ ∀ nanos : Int,
        GracePolicy.isExpired ⟨.wholeSecond 126400, nanos⟩ (.wholeSecond 43200) →
          GracePolicy.isExpired ⟨.wholeSecond 126400, nanos⟩ noonLeap := by
  have h : noonLeap ≤ .wholeSecond 43200 := by decide
  refine ⟨h, (expiry_in_order_iff h).1.2 ?_, fun inOrder =>
    (expiry_in_order_iff h).1.1 inOrder ?_⟩
  · intro ho
    cases ho with
    | intoLeap same => exact absurd same (by decide)
    | outOfLeap next farther time => exact absurd time (by decide)
    | overMidnight leap => exact absurd leap (by decide)
  · exact .outOfLeap (by decide) (by decide) (by decide) (by decide)

/-- Two days of grace before a moment of 3 January 2017. -/
def newYearPolicy : GracePolicy :=
  ⟨⟨1483401600, 200000000, by decide, by decide⟩, 172800000000000⟩

/-- The leap second at the end of 2016 is not expired when the new year already is. -/
theorem not_forall_isExpired_of_le :
    ¬ ∀ (policy : GracePolicy) (s t : String) (d e : Time.Instant),
      parse? s = some d → parse? t = some e → d ≤ e →
        policy.isExpired e → policy.isExpired d := by
  intro inOrder
  have early : parse? "2016-12-31T23:59:60.500Z" = some leapOf2016 := by
    decide +kernel
  have late : parse? "2017-01-01T00:00:00.000Z" =
      some (.wholeSecond 1483228800) := by
    decide +kernel
  exact absurd
    (inOrder newYearPolicy _ _ _ _ early late (by decide) (by decide))
    (by decide)

end Sample

end GracePolicy
end Reclaim
