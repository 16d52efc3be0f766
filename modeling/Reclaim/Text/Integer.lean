import Reclaim.Text.Digit

/-!
# Reading bounded integers

A decimal number is read digit by digit, and the first fault from the left is
reported: a character that is no digit, or the digit that takes the number out
of its range.  A plus sign is accepted everywhere, a minus sign only where the
range has negative numbers.

Main results: `readNatural_le` and `readInteger_mem` say that what is read lies
in the range; `readNatural_of_digits` says that digits within it are read.
-/

namespace Reclaim
namespace Text

/-- Why a text is not an integer of the range. -/
inductive IntegerFault
  | empty
  | invalidDigit
  | tooLarge
  | tooSmall
  deriving DecidableEq, Repr

namespace IntegerFault

/-- The wording of a fault. -/
def message : IntegerFault → String
  | empty => "cannot parse integer from empty string"
  | invalidDigit => "invalid digit found in string"
  | tooLarge => "number too large to fit in target type"
  | tooSmall => "number too small to fit in target type"

end IntegerFault

/-- Appends digits to `n`; a result above `limit` is the fault `excess`. -/
def appendDigits (limit : Nat) (excess : IntegerFault) (n : Nat) :
    List Char → Except IntegerFault Nat
  | [] => .ok n
  | c :: r =>
      if isDigit c then
        if n * 10 + digitValue c ≤ limit then
          appendDigits limit excess (n * 10 + digitValue c) r
        else
          .error excess
      else
        .error .invalidDigit

/-- Digits after a sign: at least one. -/
def signedDigits (limit : Nat) (excess : IntegerFault) :
    List Char → Except IntegerFault Nat
  | [] => .error .invalidDigit
  | c :: r => appendDigits limit excess 0 (c :: r)

/-- Reads a number from zero to `limit`. -/
def readNatural (limit : Nat) (s : String) : Except IntegerFault Nat :=
  match s.toList with
  | [] => .error .empty
  | '+' :: r => signedDigits limit .tooLarge r
  | c :: r => appendDigits limit .tooLarge 0 (c :: r)

/-- Reads a number from `-limit - 1` to `limit`. -/
def readInteger (limit : Nat) (s : String) : Except IntegerFault Int :=
  match s.toList with
  | [] => .error .empty
  | '+' :: r => (signedDigits limit .tooLarge r).map Int.ofNat
  | '-' :: r =>
      (signedDigits (limit + 1) .tooSmall r).map fun n => -Int.ofNat n
  | c :: r => (appendDigits limit .tooLarge 0 (c :: r)).map Int.ofNat

/-- The largest signed number of 64 bits. -/
def maxSigned64 : Nat := 9223372036854775807

/-- The largest unsigned number of 64 bits. -/
def maxUnsigned64 : Nat := 18446744073709551615

theorem appendDigits_le
    {limit n m : Nat} {excess : IntegerFault} {s : List Char}
    (hn : n ≤ limit)
    (h : appendDigits limit excess n s = .ok m) :
    m ≤ limit := by
  induction s generalizing n with
  | nil =>
      simp [appendDigits] at h
      omega
  | cons c r ih =>
      simp only [appendDigits] at h
      split at h
      · split at h
        · next hle => exact ih hle h
        · simp at h
      · simp at h

theorem signedDigits_le
    {limit m : Nat} {excess : IntegerFault} {s : List Char}
    (h : signedDigits limit excess s = .ok m) :
    m ≤ limit := by
  cases s with
  | nil => simp [signedDigits] at h
  | cons c r => exact appendDigits_le (Nat.zero_le _) h

/-- A natural number that is read lies in its range. -/
theorem readNatural_le
    {limit m : Nat} {s : String}
    (h : readNatural limit s = .ok m) :
    m ≤ limit := by
  simp only [readNatural] at h
  split at h
  · simp at h
  · exact signedDigits_le h
  · exact appendDigits_le (Nat.zero_le _) h

/-- An integer that is read lies in its range. -/
theorem readInteger_mem
    {limit : Nat} {m : Int} {s : String}
    (h : readInteger limit s = .ok m) :
    -(limit : Int) - 1 ≤ m ∧ m ≤ limit := by
  simp only [readInteger] at h
  split at h
  · simp at h
  · next r _ =>
      cases hd : signedDigits limit .tooLarge r with
      | error e => simp [hd, Except.map] at h
      | ok n =>
          simp [hd, Except.map] at h
          have := signedDigits_le hd
          omega
  · next r _ =>
      cases hd : signedDigits (limit + 1) .tooSmall r with
      | error e => simp [hd, Except.map] at h
      | ok n =>
          simp [hd, Except.map] at h
          have := signedDigits_le hd
          omega
  · next c r _ _ _ =>
      cases hd : appendDigits limit .tooLarge 0 (c :: r) with
      | error e => simp [hd, Except.map] at h
      | ok n =>
          simp [hd, Except.map] at h
          have := appendDigits_le (Nat.zero_le _) hd
          omega

theorem appendDigits_of_digits
    {limit n : Nat} {excess : IntegerFault} {s : List Char}
    (digits : ∀ c ∈ s, isDigit c = true)
    (fits : s.foldl (fun n c => n * 10 + digitValue c) n ≤ limit) :
    appendDigits limit excess n s =
      .ok (s.foldl (fun n c => n * 10 + digitValue c) n) := by
  induction s generalizing n with
  | nil => rfl
  | cons c r ih =>
      have hle := Nat.le_trans (le_foldl_digits _ r) fits
      rw [appendDigits, if_pos (digits c (by simp)), if_pos hle]
      exact ih (fun d hd => digits d (by simp [hd])) fits

/-- Digits are read as the number they write, if it lies in the range. -/
theorem readNatural_of_digits
    {limit : Nat} {s : List Char} (hne : s ≠ [])
    (digits : ∀ c ∈ s, isDigit c = true)
    (fits : decimalValue s ≤ limit) :
    readNatural limit (String.ofList s) = .ok (decimalValue s) := by
  have all : appendDigits limit .tooLarge 0 s = .ok (decimalValue s) :=
    appendDigits_of_digits digits fits
  rw [readNatural, String.toList_ofList]
  split
  · exact absurd rfl hne
  · exact absurd (digits '+' (by simp)) (by decide)
  · exact all

end Text
end Reclaim
