import Reclaim.Proofs.Time.TextOrder
import Reclaim.Proofs.Wire.Lines

/-!
# The two forms of timestamps

Dumps give a date as a count of milliseconds since the epoch, rows carry it in
the fixed form.  For the years with four digits both forms are read as the same
instant, the fixed form has one width for all of them, and its order as text is
the order of time.  A count is written in digits alone: what starts with a minus
sign is no timestamp, so no count leads to a date before the epoch.

Main result: `timestamps_read_in_order`.
-/

namespace Reclaim
namespace Time
namespace Instant

theorem length_textChars {t : Instant} (h : t.HasFourDigitYear) :
    t.textChars.length = 24 := by
  simp [textChars, wholeSeconds, yearDigits_year h]

/-- Instants to whole milliseconds are ordered as the bytes of their fixed forms. -/
theorem lt_iff_bytesBefore
    {t u : Instant} (ht : t.HasFourDigitYear) (hu : u.HasFourDigitYear)
    (wt : t.IsWholeMilli) (wu : u.IsWholeMilli) :
    t < u ↔ Text.BytesBefore t.text u.text := by
  rw [Text.bytesBefore_iff, compare_text ht hu,
    truncateToMillis_of_isWholeMilli wt, truncateToMillis_of_isWholeMilli wu]
  rfl

/-! ## Counts of milliseconds -/

/-- The number of milliseconds from the start of the year 0 to the epoch. -/
def millisFromYear0 : Nat := 62167219200000

/-- The number of milliseconds from the epoch to the end of the year 9999. -/
def millisToYear10000 : Nat := 253402300800000

/-- The counts of the years with four digits are those of instants. -/
theorem exists_ofMillis?
    {n : Int} (low : -millisFromYear0 ≤ n) (high : n < millisToYear10000) :
    ∃ t : Instant, ofMillis? n = some t ∧ t.HasFourDigitYear ∧
      t.IsWholeMilli := by
  have first : firstSecond ≤ -62167219200 := by decide
  have last : 253402300799 ≤ lastSecond := by decide
  rw [millisFromYear0] at low
  rw [millisToYear10000] at high
  rw [ofMillis?, if_pos (by omega)]
  refine ⟨_, rfl, hasFourDigitYear_iff.2 ?_, ?_⟩
  · simp only
    omega
  · simp only [IsWholeMilli]
    omega

theorem trimBlanks_digits
    {digits : List Char} (h : ∀ c ∈ digits, Text.isDigit c = true) :
    Text.trimBlanks digits = digits :=
  Text.trimBlanks_eq_self
    (fun c hc => isBlank_of_isDigit (h c (List.mem_of_head? hc)))
    (fun c hc => isBlank_of_isDigit (h c (List.mem_of_getLast? hc)))

/-- Digits are read as a count of milliseconds. -/
theorem parse?_digits
    {digits : List Char} (hne : digits ≠ [])
    (h : ∀ c ∈ digits, Text.isDigit c = true)
    (fits : Text.decimalValue digits ≤ Text.maxSigned64) :
    parse? (String.ofList digits) = ofMillis? (Text.decimalValue digits) := by
  have all : digits.all Text.isDigit = true := List.all_eq_true.2 h
  simp only [parse?, String.toList_ofList, trimBlanks_digits h, all, ne_eq, hne,
    not_false_eq_true, and_self, if_true, parseMillis?,
    Text.readNatural_of_digits hne h fits]

/--
The fixed form of the years with four digits is read as the instant to whole
milliseconds, has one width and is ordered as time is.  The digits of a count of
milliseconds up to the end of these years are read as the instant that the fixed
form of it is read as; a count with a minus sign is not read.
-/
theorem timestamps_read_in_order :
    (∀ t : Instant, t.HasFourDigitYear →
      parse? t.text = some t.truncateToMillis ∧ t.text.length = 24) ∧
    (∀ t u : Instant, t.HasFourDigitYear → u.HasFourDigitYear →
      t.IsWholeMilli → u.IsWholeMilli →
        (t < u ↔ Text.BytesBefore t.text u.text)) ∧
    (∀ digits : List Char, digits ≠ [] →
      (∀ c ∈ digits, Text.isDigit c = true) →
      Text.decimalValue digits < millisToYear10000 →
        ∃ t : Instant, ofMillis? (Text.decimalValue digits) = some t ∧
          t.HasFourDigitYear ∧ parse? (String.ofList digits) = some t ∧
          parse? t.text = some t) ∧
    ∀ s : List Char, parse? (String.ofList ('-' :: s)) = none := by
  refine ⟨fun t h => ⟨parse?_text h, ?_⟩, fun t u => lt_iff_bytesBefore, ?_,
    parse?_eq_none_of_not_isDigit (by decide) (by decide)⟩
  · rw [text, String.length_ofList]
    exact length_textChars h
  · intro digits hne h range
    obtain ⟨t, ht, year, whole⟩ :=
      exists_ofMillis? (n := Text.decimalValue digits) (by omega) (by omega)
    have fits : Text.decimalValue digits ≤ Text.maxSigned64 :=
      Nat.le_of_lt (Nat.lt_trans range (by decide))
    refine ⟨t, ht, year, (parse?_digits hne h fits).trans ht, ?_⟩
    rw [parse?_text year, truncateToMillis_of_isWholeMilli whole]

section Sample

/-- The leap second at the end of 2016 is before the new year, whose count is read. -/
theorem timestamps_read_of_leapOf2016 :
    leapOf2016.HasFourDigitYear ∧ leapOf2016.IsWholeMilli ∧
      parse? leapOf2016.text = some leapOf2016 ∧ leapOf2016.text.length = 24 ∧
      Text.BytesBefore leapOf2016.text (wholeSecond 1483228800).text ∧
      ∃ t : Instant, ofMillis? 1483228800000 = some t ∧
        parse? "1483228800000" = some t ∧ parse? t.text = some t := by
  obtain ⟨forms, order, counts, -⟩ := timestamps_read_in_order
  have year : leapOf2016.HasFourDigitYear := hasFourDigitYear_iff.2 (by decide)
  have year' : (wholeSecond 1483228800).HasFourDigitYear :=
    hasFourDigitYear_iff.2 (by decide)
  have whole : leapOf2016.IsWholeMilli := by decide
  obtain ⟨read, width⟩ := forms leapOf2016 year
  obtain ⟨t, ht, -, digits, text⟩ := counts "1483228800000".toList (by decide)
    (List.all_eq_true.1 (by decide)) (by decide)
  exact ⟨year, whole, read, width,
    (order leapOf2016 (wholeSecond 1483228800) year year' whole
      (by decide)).1 (by decide), t, ht, digits, text⟩

/-- The count of the last millisecond before the epoch is not read, but its fixed form is. -/
theorem not_forall_parse?_count :
    ¬ ∀ (n : Int) (t : Instant), ofMillis? n = some t → t.HasFourDigitYear →
      parse? (toString n) = parse? t.text := by
  intro same
  obtain ⟨t, ht, year, -⟩ :=
    exists_ofMillis? (by decide : -millisFromYear0 ≤ (-1 : Int)) (by decide)
  have read := same (-1) t ht year
  rw [parse?_text year, show parse? (toString (-1 : Int)) = none by decide] at read
  cases read

end Sample

end Instant
end Time
end Reclaim
