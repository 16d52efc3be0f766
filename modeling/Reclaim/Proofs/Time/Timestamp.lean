import Mathlib.Algebra.Group.Nat.Defs
import Reclaim.Time.Timestamp

/-!
# The fixed form of timestamps is read back

Rows carry dates with digits of a fixed width down to the milliseconds.  For the
years with four digits this form is read as the instant it was written from, cut
to whole milliseconds; a leap second is written as the second 60 and read as
one.  For all other years the form starts with a sign and is not read at all.

Main results: `parse?_text` and `parse?_text_eq_none`.
-/

namespace Reclaim
namespace Time

/-! ## Digits of a fixed width -/

theorem isDigit_lastDigit (n : Nat) :
    Text.isDigit (Char.ofNat ('0'.toNat + n % 10)) = true ∧
      Text.digitValue (Char.ofNat ('0'.toNat + n % 10)) = n % 10 := by
  have all : ∀ d : Fin 10, Text.isDigit (Char.ofNat ('0'.toNat + d)) = true ∧
      Text.digitValue (Char.ofNat ('0'.toNat + d)) = d := by
    decide
  exact all ⟨n % 10, Nat.mod_lt n (by decide)⟩

@[simp] theorem length_fixedDigits (width n : Nat) :
    (fixedDigits width n).length = width := by
  induction width generalizing n with
  | zero => rfl
  | succ width ih => simp [fixedDigits, ih]

theorem isDigit_of_mem_fixedDigits
    {width n : Nat} {c : Char} (h : c ∈ fixedDigits width n) :
    Text.isDigit c = true := by
  induction width generalizing n with
  | zero => simp [fixedDigits] at h
  | succ width ih =>
      simp only [fixedDigits, List.mem_append, List.mem_singleton] at h
      rcases h with h | rfl
      · exact ih h
      · exact (isDigit_lastDigit n).1

theorem mod_pow_succ (width n : Nat) :
    n % 10 ^ (width + 1) = n / 10 % 10 ^ width * 10 + n % 10 := by
  rw [Nat.pow_succ', Nat.mod_mul]
  omega

theorem decimalValue_fixedDigits (width n : Nat) :
    Text.decimalValue (fixedDigits width n) = n % 10 ^ width := by
  induction width generalizing n with
  | zero => simp [fixedDigits, Text.decimalValue, Nat.mod_one]
  | succ width ih =>
      have ih := ih (n / 10)
      rw [Text.decimalValue] at ih
      rw [fixedDigits, Text.decimalValue, List.foldl_append, ih]
      simp only [List.foldl_cons, List.foldl_nil, (isDigit_lastDigit n).2,
        mod_pow_succ]

/-- A number is read back from its digits if they are enough. -/
theorem takeNumber?_fixedDigits
    {width n : Nat} (h : n < 10 ^ width) (r : List Char) :
    Instant.takeNumber? width (fixedDigits width n ++ r) = some (n, r) := by
  have hl := length_fixedDigits width n
  have htake : (fixedDigits width n ++ r).take width = fixedDigits width n := by
    rw [List.take_append_of_le_length (by omega), List.take_of_length_le (by omega)]
  have hdrop : (fixedDigits width n ++ r).drop width = r := by
    rw [List.drop_append_of_le_length (by omega), List.drop_of_length_le (by omega),
      List.nil_append]
  have hall : (fixedDigits width n).all Text.isDigit = true :=
    List.all_eq_true.2 fun c => isDigit_of_mem_fixedDigits
  simp only [Instant.takeNumber?, htake, hdrop, hl, hall, and_self, if_true,
    decimalValue_fixedDigits, Nat.mod_eq_of_lt h]

/-! ## Reading the fixed form -/

namespace Instant

/-- The years that are written with four digits. -/
def HasFourDigitYear (t : Instant) : Prop :=
  0 ≤ t.year ∧ t.year ≤ 9999

instance (t : Instant) : Decidable t.HasFourDigitYear :=
  inferInstanceAs (Decidable (_ ∧ _))

/-- The seconds of the years that are written with four digits. -/
theorem hasFourDigitYear_iff {t : Instant} :
    t.HasFourDigitYear ↔
      -62167219200 ≤ t.seconds ∧ t.seconds < 253402300800 := by
  have hyear : t.year = yearOf t.dayNumber := rfl
  have start : daysBeforeYear 0 = 0 := by decide
  have stop : daysBeforeYear 10000 = 3652425 := by decide
  have low : 0 ≤ t.year ↔ daysBeforeYear 0 ≤ t.dayNumber :=
    hyear ▸ le_yearOf_iff
  have high : 10000 ≤ t.year ↔ daysBeforeYear 10000 ≤ t.dayNumber :=
    hyear ▸ le_yearOf_iff
  have hday : t.dayNumber = t.seconds / 86400 + 719528 := rfl
  rw [HasFourDigitYear]
  omega

theorem yearDigits_year {t : Instant} (h : t.HasFourDigitYear) :
    yearDigits t.date.year = fixedDigits 4 t.year.toNat :=
  if_pos h

theorem isBlank_of_isDigit {c : Char} (h : Text.isDigit c = true) :
    Text.isBlank c = false := by
  simp only [Text.isDigit, Bool.and_eq_true, decide_eq_true_eq] at h
  have low : 0x30 ≤ c.toNat := h.1
  have high : c.toNat ≤ 0x39 := h.2
  simp [Text.isBlank, Text.blankRanges]
  omega

theorem getLast?_textChars (t : Instant) : t.textChars.getLast? = some 'Z' := by
  rw [textChars, List.getLast?_concat]

theorem isBlank_last_textChars (t : Instant) :
    ∀ c ∈ t.textChars.getLast?, Text.isBlank c = false := by
  rw [getLast?_textChars]
  rintro c hc
  cases hc
  decide

theorem seconds_eq (t : Instant) :
    t.seconds = (t.dayNumber - epochDay) * secondsPerDay + t.secondOfDay := by
  simp only [dayNumber, secondOfDay, secondsPerDay]
  omega

theorem secondOfDay_lt (t : Instant) : t.secondOfDay < 86400 := by
  simp only [secondOfDay, secondsPerDay]
  omega

theorem dayNumber_date (t : Instant) : t.date.dayNumber = t.dayNumber :=
  Date.dayNumber_ofDayNumber t.dayNumber

/-- Only the last second of a minute can be a leap second. -/
theorem secondOfMinute_cases (t : Instant) :
    t.nanos < nanosPerSecond ∧ t.secondOfMinute = t.secondOfDay % 60 ∨
      nanosPerSecond ≤ t.nanos ∧ t.secondOfDay % 60 = 59 ∧
        t.secondOfMinute = 60 := by
  have hn := t.nanos_lt
  simp only [secondOfMinute]
  rcases Nat.lt_or_ge t.nanos nanosPerSecond with h | h
  · exact .inl ⟨h, by rw [Nat.div_eq_of_lt h, Nat.add_zero]⟩
  · have hs := t.leap_only_at_59 h
    have hd : t.nanos / nanosPerSecond = 1 := by
      simp only [nanosPerSecond] at *
      omega
    have h59 : t.secondOfDay % 60 = 59 := by
      simp only [secondOfDay, secondsPerDay]
      omega
    exact .inr ⟨h, h59, by rw [hd, h59]⟩

/-- An instant is put together again from its date and its time of day. -/
theorem ofLocal?_date (t : Instant) :
    ofLocal? t.date (t.secondOfDay / 3600) (t.secondOfDay / 60 % 60)
        t.secondOfMinute (t.nanos % nanosPerSecond / 1000000 * 1000000) 0 =
      some t.truncateToMillis := by
  have hs := t.seconds_eq
  have hlt := t.secondOfDay_lt
  have hn := t.nanos_lt
  rw [ofLocal?, dif_pos (by simp only [nanosPerSecond]; omega)]
  rcases t.secondOfMinute_cases with ⟨hlow, hm⟩ | ⟨hleap, h59, hm⟩
  · rw [if_pos (by omega)]
    simp only [Option.some.injEq, truncateToMillis, mk.injEq, dayNumber_date, hm]
    simp only [nanosPerSecond, secondsPerDay] at *
    omega
  · rw [if_neg (by omega), if_pos hm]
    simp only [Option.some.injEq, truncateToMillis, mk.injEq, dayNumber_date]
    simp only [nanosPerSecond, secondsPerDay] at *
    omega

theorem takeFraction?_millis {k : Nat} (h : k < 1000) :
    takeFraction? ('.' :: (fixedDigits 3 k ++ ['Z'])) =
      some (k * 1000000, ['Z']) := by
  have hd : ∀ c ∈ fixedDigits 3 k, Text.isDigit c = true :=
    fun c => isDigit_of_mem_fixedDigits
  have htake : (fixedDigits 3 k ++ ['Z']).takeWhile Text.isDigit =
      fixedDigits 3 k := by
    rw [List.takeWhile_append_of_pos hd]
    simp [Text.isDigit]
  have hdrop : (fixedDigits 3 k ++ ['Z']).dropWhile Text.isDigit = ['Z'] := by
    rw [List.dropWhile_append_of_pos hd]
    simp [Text.isDigit]
  have hne : (fixedDigits 3 k).isEmpty = false := rfl
  have hv := decimalValue_fixedDigits 3 k
  rw [Text.decimalValue] at hv
  have bound : k < 10 ^ 3 := by omega
  have hnanos : nanosOfFraction (fixedDigits 3 k) = k * 1000000 := by
    rw [nanosOfFraction, List.take_of_length_le (by simp), length_fixedDigits,
      Text.decimalValue, List.foldl_append, hv, Nat.mod_eq_of_lt bound]
    simp [List.replicate, Text.digitValue]
    omega
  simp only [takeFraction?, htake, hdrop, hne, hnanos]
  rfl

theorem ofNumbers?_date (d : Date) :
    Date.ofNumbers? d.year d.month d.day = some d := by
  rw [Date.ofNumbers?,
    dif_pos ⟨d.month_pos, d.month_le, d.day_pos, d.day_le⟩]

theorem day_lt (d : Date) : d.day < 100 := by
  have all : ∀ leap : Bool, ∀ m : Fin 13, monthLength leap m ≤ 31 := by decide
  have hm := all (isLeapYear d.year) ⟨d.month, Nat.lt_succ_of_le d.month_le⟩
  have hd := d.day_le
  simp only at hm
  omega

theorem bind_of_eq_some
    {α β : Type} {o : Option α} {a : α} (h : o = some a) (f : α → Option β) :
    (o >>= f) = f a := by
  rw [h]
  rfl

/-- The numbers of a date and a time of day are read from their digits. -/
theorem parseRfc3339?_digits
    {year month day hour minute second k : Nat}
    (hyear : year < 10 ^ 4) (hmonth : month < 10 ^ 2) (hday : day < 10 ^ 2)
    (hhour : hour < 10 ^ 2) (hminute : minute < 10 ^ 2)
    (hsecond : second < 10 ^ 2) (hk : k < 1000) :
    parseRfc3339?
        ((fixedDigits 4 year ++ '-' :: fixedDigits 2 month ++
          '-' :: fixedDigits 2 day ++ 'T' :: fixedDigits 2 hour ++
          ':' :: fixedDigits 2 minute ++ ':' :: fixedDigits 2 second) ++
          '.' :: fixedDigits 3 k ++ ['Z']) =
      (Date.ofNumbers? year month day).bind fun date =>
        ofLocal? date hour minute second (k * 1000000) 0 := by
  have dash : ∀ r, skip? ['-'] ('-' :: r) = some r := fun _ => rfl
  have colon : ∀ r, skip? [':'] (':' :: r) = some r := fun _ => rfl
  have letter : ∀ r, skip? ['T', 't', ' '] ('T' :: r) = some r := fun _ => rfl
  have utc : offsetMinutes? ['Z'] = some 0 := rfl
  simp only [List.append_assoc, List.cons_append]
  rw [parseRfc3339?]
  -- What is read first is rewritten first, before what goes on with it.
  simp only [↓bind_of_eq_some (takeNumber?_fixedDigits hyear _),
    ↓bind_of_eq_some (takeNumber?_fixedDigits hmonth _),
    ↓bind_of_eq_some (takeNumber?_fixedDigits hday _),
    ↓bind_of_eq_some (takeNumber?_fixedDigits hhour _),
    ↓bind_of_eq_some (takeNumber?_fixedDigits hminute _),
    ↓bind_of_eq_some (takeNumber?_fixedDigits hsecond _),
    ↓bind_of_eq_some (takeFraction?_millis hk), ↓bind_of_eq_some (dash _),
    ↓bind_of_eq_some (colon _), ↓bind_of_eq_some (letter _),
    ↓bind_of_eq_some utc]
  rfl

/-- All numbers of the fixed form but the year have two or three digits. -/
theorem clock_bounds (t : Instant) :
    t.date.month < 10 ^ 2 ∧ t.date.day < 10 ^ 2 ∧
      t.secondOfDay / 3600 < 10 ^ 2 ∧ t.secondOfDay / 60 % 60 < 10 ^ 2 ∧
      t.secondOfMinute < 10 ^ 2 ∧
      t.nanos % nanosPerSecond / 1000000 < 10 ^ 3 := by
  have hmonth := t.date.month_le
  have hlt := t.secondOfDay_lt
  have hsecond : t.secondOfMinute < 10 ^ 2 := by
    rcases t.secondOfMinute_cases with h | h <;> omega
  have hmillis : t.nanos % nanosPerSecond / 1000000 < 1000 := by
    simp only [nanosPerSecond]
    omega
  exact ⟨by omega, day_lt t.date, by omega, by omega, hsecond, hmillis⟩

theorem parseRfc3339?_textChars {t : Instant} (h : t.HasFourDigitYear) :
    parseRfc3339? t.textChars = some t.truncateToMillis := by
  obtain ⟨hmonth, hday, hhour, hminute, hsecond, hmillis⟩ := t.clock_bounds
  have hyear : t.year.toNat < 10 ^ 4 := by have := h.2; omega
  have hcast : (t.year.toNat : Int) = t.date.year := Int.toNat_of_nonneg h.1
  rw [textChars, wholeSeconds, yearDigits_year h,
    parseRfc3339?_digits hyear hmonth hday hhour hminute hsecond hmillis,
    hcast, ofNumbers?_date, Option.bind_some]
  exact t.ofLocal?_date

/-- The fixed form is read as the instant to whole milliseconds. -/
theorem parse?_text {t : Instant} (h : t.HasFourDigitYear) :
    parse? t.text = some t.truncateToMillis := by
  have first : ∀ c ∈ t.textChars.head?, Text.isBlank c = false := by
    intro c hc
    have hc : c ∈ (fixedDigits 4 t.year.toNat).head? := by
      rw [textChars, wholeSeconds, yearDigits_year h] at hc
      exact hc
    exact isBlank_of_isDigit (isDigit_of_mem_fixedDigits (List.mem_of_head? hc))
  have notDigits : t.textChars.all Text.isDigit = false := by
    rw [List.all_eq_false]
    exact ⟨'Z', List.mem_of_getLast? t.getLast?_textChars, by decide⟩
  simp [parse?, text, Text.trimBlanks_eq_self first t.isBlank_last_textChars,
    notDigits, parseRfc3339?_textChars h]

/-- What starts with another character than a digit is no timestamp. -/
theorem parse?_eq_none_of_not_isDigit
    {c : Char} (digit : Text.isDigit c = false) (blank : Text.isBlank c = false)
    (s : List Char) :
    parse? (String.ofList (c :: s)) = none := by
  obtain ⟨r, trimmed⟩ := Text.exists_trimBlanks_cons blank s
  have unread : takeNumber? 4 (c :: r) = none := by
    simp [takeNumber?, digit]
  have refused : parseRfc3339? (c :: r) = none := by
    rw [parseRfc3339?, unread]
    rfl
  simp [parse?, trimmed, digit, refused]

/-- A year that has not four digits is written with a sign. -/
theorem parse?_text_eq_none {t : Instant} (h : ¬ t.HasFourDigitYear) :
    parse? t.text = none := by
  obtain ⟨c, r, hc, hs⟩ : ∃ c r, (c = '-' ∨ c = '+') ∧ t.textChars = c :: r := by
    have hy : ¬ (0 ≤ t.date.year ∧ t.date.year ≤ 9999) := h
    simp only [textChars, wholeSeconds, yearDigits, if_neg hy, List.cons_append]
    refine ⟨_, _, ?_, rfl⟩
    split
    · exact .inl rfl
    · exact .inr rfl
  have sign : Text.isDigit c = false ∧ Text.isBlank c = false := by
    rcases hc with rfl | rfl <;> decide
  rw [text, hs]
  exact parse?_eq_none_of_not_isDigit sign.1 sign.2 r

end Instant
end Time
end Reclaim
