import Reclaim.Text.Blank
import Reclaim.Text.Digit
import Reclaim.Text.Integer
import Reclaim.Time.Instant

/-!
# Timestamps

The texts of instants.  Rows carry the fixed form `YYYY-MM-DDTHH:MM:SS.mmmZ`,
whose order as text is the order of time for the years with four digits;
reports show the nanoseconds in as many groups of three digits as they need.
Dumps also hold counts of milliseconds since the epoch and the other forms of
RFC 3339, so both are read, without the blanks around them.
-/

namespace Reclaim
namespace Time

/-- The last `width` decimal digits of a number. -/
def fixedDigits : Nat → Nat → List Char
  | 0, _ => []
  | width + 1, n =>
      fixedDigits width (n / 10) ++ [Char.ofNat ('0'.toNat + n % 10)]

/-- A year: four digits, or a sign and at least four digits. -/
def yearDigits (year : Int) : List Char :=
  if 0 ≤ year ∧ year ≤ 9999 then
    fixedDigits 4 year.toNat
  else
    let digits := (toString year.natAbs).toList
    (if year < 0 then '-' else '+') ::
      (List.replicate (4 - digits.length) '0' ++ digits)

namespace Instant

/-- The second of the minute, which is 60 in a leap second. -/
def secondOfMinute (t : Instant) : Nat :=
  t.secondOfDay % 60 + t.nanos / nanosPerSecond

/-- Date and time of day to whole seconds. -/
def wholeSeconds (t : Instant) : List Char :=
  yearDigits t.date.year ++ '-' :: fixedDigits 2 t.date.month ++
    '-' :: fixedDigits 2 t.date.day ++
    'T' :: fixedDigits 2 (t.secondOfDay / 3600) ++
    ':' :: fixedDigits 2 (t.secondOfDay / 60 % 60) ++
    ':' :: fixedDigits 2 t.secondOfMinute

/-- The fixed form with milliseconds that rows carry. -/
def textChars (t : Instant) : List Char :=
  t.wholeSeconds ++ '.' ::
    fixedDigits 3 (t.nanos % nanosPerSecond / 1000000) ++ ['Z']

/-- The fixed form with milliseconds that rows carry. -/
def text (t : Instant) : String :=
  String.ofList t.textChars

/-- The groups of three digits that the nanoseconds need. -/
def fraction (t : Instant) : List Char :=
  let n := t.nanos % nanosPerSecond
  if n = 0 then []
  else if n % 1000000 = 0 then '.' :: fixedDigits 3 (n / 1000000)
  else if n % 1000 = 0 then '.' :: fixedDigits 6 (n / 1000)
  else '.' :: fixedDigits 9 n

/-- The form with all nanoseconds that reports show. -/
def preciseText (t : Instant) : String :=
  String.ofList (t.wholeSeconds ++ t.fraction ++ ['Z'])

/-- A number of exactly `count` digits and what follows it. -/
def takeNumber? (count : Nat) (s : List Char) :
    Option (Nat × List Char) :=
  let digits := s.take count
  if digits.length = count ∧ digits.all Text.isDigit then
    some (Text.decimalValue digits, s.drop count)
  else
    none

/-- What follows one of the expected characters. -/
def skip? (expected : List Char) : List Char → Option (List Char)
  | c :: r => if expected.contains c then some r else none
  | [] => none

/-- The nanoseconds of a fraction with any number of digits, of which nine count. -/
def nanosOfFraction (digits : List Char) : Nat :=
  Text.decimalValue
    ((digits ++ List.replicate (9 - digits.length) '0').take 9)

/-- An optional fraction of a second and what follows it. -/
def takeFraction? : List Char → Option (Nat × List Char)
  | '.' :: r =>
      let digits := r.takeWhile Text.isDigit
      if digits.isEmpty then none
      else some (nanosOfFraction digits, r.dropWhile Text.isDigit)
  | s => some (0, s)

/-- The minutes of an offset from UTC that ends the text. -/
def offsetMinutes? : List Char → Option Int
  | ['Z'] => some 0
  | ['z'] => some 0
  | sign :: r => do
      let s : Int ←
        if sign = '+' then some 1
        else if sign = '-' ∨ sign = '\u2212' then some (-1)
        else none
      let (hours, r) ← takeNumber? 2 r
      let r ← skip? [':'] r
      let (minutes, r) ← takeNumber? 2 r
      if hours < 24 ∧ minutes < 60 ∧ r.isEmpty then
        some (s * (hours * 60 + minutes))
      else
        none
  | [] => none

/-- Reads the forms of RFC 3339. -/
def parseRfc3339? (s : List Char) : Option Instant := do
  let (year, s) ← takeNumber? 4 s
  let s ← skip? ['-'] s
  let (month, s) ← takeNumber? 2 s
  let s ← skip? ['-'] s
  let (day, s) ← takeNumber? 2 s
  let s ← skip? ['T', 't', ' '] s
  let (hour, s) ← takeNumber? 2 s
  let s ← skip? [':'] s
  let (minute, s) ← takeNumber? 2 s
  let s ← skip? [':'] s
  let (second, s) ← takeNumber? 2 s
  let (nanos, s) ← takeFraction? s
  let offset ← offsetMinutes? s
  let date ← Date.ofNumbers? year month day
  ofLocal? date hour minute second nanos offset

/-- Reads a count of milliseconds since the epoch. -/
def parseMillis? (digits : List Char) : Option Instant :=
  match Text.readNatural Text.maxSigned64 (String.ofList digits) with
  | .ok millis => ofMillis? millis
  | .error _ => none

/-- Reads a timestamp in any of the forms found in dumps. -/
def parse? (s : String) : Option Instant :=
  let trimmed := Text.trimBlanks s.toList
  if trimmed ≠ [] ∧ trimmed.all Text.isDigit then
    parseMillis? trimmed
  else
    parseRfc3339? trimmed

end Instant
end Time
end Reclaim
