import Mathlib.Data.List.TakeWhile
import Reclaim.Json.Number
import Reclaim.Json.Printer
import Reclaim.Json.Reader
import Reclaim.Proofs.Text.Printable

/-!
# Scanning printed tokens

What `scan` makes of the texts that `printValue` is put together from: brackets,
words, strings and numbers.  A string is one token whose parts stand for its
characters.  A number is one token unless the text behind it goes on with a
digit, a point or an exponent, and an integer of 64 bits is read as itself.

Main results: `scan_printString`, `decodeString_stringParts`, `scan_number` and
`Number.IsInteger64.readsBack`.
-/

namespace Reclaim
namespace Json

/-! ## Single tokens -/

theorem scan_nil : scan [] = [] := by
  rw [scan]

/-- Scanning takes one token and goes on behind it. -/
theorem scan_cons_of_token
    {c : Char} {r r' : List Char} {t : Token}
    (hc : isGap c = false)
    (h : scanToken? c r = some (t, r')) :
    scan (c :: r) = t :: scan r' := by
  rw [scan, if_neg (by simp [hc])]
  split
  · next heq =>
      rw [h] at heq
      cases heq
      rfl
  · next heq =>
      rw [h] at heq
      cases heq

theorem scan_openArray (r : List Char) :
    scan ('[' :: r) = .openArray :: scan r :=
  scan_cons_of_token rfl rfl

theorem scan_closeArray (r : List Char) :
    scan (']' :: r) = .closeArray :: scan r :=
  scan_cons_of_token rfl rfl

theorem scan_openObject (r : List Char) :
    scan ('\x7b' :: r) = .openObject :: scan r :=
  scan_cons_of_token rfl rfl

theorem scan_closeObject (r : List Char) :
    scan ('\x7d' :: r) = .closeObject :: scan r :=
  scan_cons_of_token rfl rfl

theorem scan_colon (r : List Char) :
    scan (':' :: r) = .colon :: scan r :=
  scan_cons_of_token rfl rfl

theorem scan_comma (r : List Char) :
    scan (',' :: r) = .comma :: scan r :=
  scan_cons_of_token rfl rfl

theorem scan_null (r : List Char) :
    scan ('n' :: 'u' :: 'l' :: 'l' :: r) = .null :: scan r :=
  scan_cons_of_token rfl rfl

theorem scan_true (r : List Char) :
    scan ('t' :: 'r' :: 'u' :: 'e' :: r) = .bool true :: scan r :=
  scan_cons_of_token rfl rfl

theorem scan_false (r : List Char) :
    scan ('f' :: 'a' :: 'l' :: 's' :: 'e' :: r) = .bool false :: scan r :=
  scan_cons_of_token rfl rfl

/-! ## Strings -/

/-- How a character is written inside a string: as a code unit or for itself. -/
def StringPart.ofChar (c : Char) : StringPart :=
  if c.toNat < 0x20 ∧ c ≠ '\x08' ∧ c ≠ '\x0c' ∧ c ≠ '\n' ∧ c ≠ '\r' ∧ c ≠ '\t' then
    .unit c.toNat
  else
    .plain c

/-- The parts of a printed string. -/
def stringParts (s : String) : List StringPart :=
  s.toList.map StringPart.ofChar

theorem codeUnit?_of_lt
    {n : Nat} (h : n < 0x20) :
    codeUnit? '0' '0' (Text.hexDigit (n / 16)) (Text.hexDigit (n % 16)) =
      some n := by
  have zero : Text.hexValue? '0' = some 0 := by decide
  rw [codeUnit?, zero, Text.hexValue?_hexDigit (by omega),
    Text.hexValue?_hexDigit (by omega)]
  simp
  omega

/-- A printed character is scanned as one part. -/
theorem scanString_escapeChar
    (c : Char) {r r' : List Char} {parts : List StringPart}
    (h : scanString r = some (parts, r')) :
    scanString (escapeChar c ++ r) =
      some (StringPart.ofChar c :: parts, r') := by
  by_cases h₁ : c = '"'
  · subst h₁
    simp [escapeChar, scanString, h, StringPart.ofChar, shortEscape?]
  by_cases h₂ : c = '\\'
  · subst h₂
    simp [escapeChar, scanString, h, StringPart.ofChar, shortEscape?]
  by_cases h₃ : c = '\x08'
  · subst h₃
    simp [escapeChar, scanString, h, StringPart.ofChar, shortEscape?]
  by_cases h₄ : c = '\x0c'
  · subst h₄
    simp [escapeChar, scanString, h, StringPart.ofChar, shortEscape?]
  by_cases h₅ : c = '\n'
  · subst h₅
    simp [escapeChar, scanString, h, StringPart.ofChar, shortEscape?]
  by_cases h₆ : c = '\r'
  · subst h₆
    simp [escapeChar, scanString, h, StringPart.ofChar, shortEscape?]
  by_cases h₇ : c = '\t'
  · subst h₇
    simp [escapeChar, scanString, h, StringPart.ofChar, shortEscape?]
  by_cases h₈ : c.toNat < 0x20
  · simp [escapeChar, scanString, h, StringPart.ofChar, h₁, h₂, h₃, h₄, h₅,
      h₆, h₇, h₈, codeUnit?_of_lt h₈]
  · simp [escapeChar, scanString, h, StringPart.ofChar, h₁, h₂, h₃, h₄, h₅,
      h₆, h₇, h₈]

theorem scanString_flatMap (s r : List Char) :
    scanString (s.flatMap escapeChar ++ '"' :: r) =
      some (s.map StringPart.ofChar, r) := by
  induction s with
  | nil => rfl
  | cons c s ih =>
      rw [List.flatMap_cons, List.append_assoc]
      exact scanString_escapeChar c ih

/-- A printed string is one token. -/
theorem scan_printString (s : String) (r : List Char) :
    scan (printString s ++ r) = .string (stringParts s) :: scan r := by
  simp only [printString, List.cons_append, List.append_assoc,
    List.nil_append]
  apply scan_cons_of_token rfl
  simp only [scanToken?, scanString_flatMap]
  rfl

/-- The part of a character stands for the character. -/
theorem decodeParts_ofChar_cons (c : Char) (parts : List StringPart) :
    decodeParts (StringPart.ofChar c :: parts) =
      (decodeParts parts).map (c :: ·) := by
  unfold StringPart.ofChar
  split
  · next h =>
      have low : ¬ (0xD800 ≤ c.toNat ∧ c.toNat < 0xE000) := by omega
      have high : ¬ (0xD800 ≤ c.toNat ∧ c.toNat < 0xDC00) := by omega
      have trailing : ¬ (0xDC00 ≤ c.toNat ∧ c.toNat < 0xE000) := by omega
      rcases parts with _ | ⟨_ | m, parts⟩
      · simp only [decodeParts, if_neg low, Char.ofNat_toNat]
      · simp only [decodeParts, if_neg low, Char.ofNat_toNat]
      · rw [decodeParts, if_neg high, if_neg trailing, Char.ofNat_toNat]
  · rw [decodeParts]

/-- The parts of a printed string stand for the string. -/
theorem decodeString_stringParts (s : String) :
    decodeString (stringParts s) = .ok s := by
  have all : ∀ cs : List Char,
      decodeParts (cs.map StringPart.ofChar) = some cs := by
    intro cs
    induction cs with
    | nil => rfl
    | cons c cs ih => rw [List.map_cons, decodeParts_ofChar_cons, ih]; rfl
  rw [decodeString, stringParts, all]
  simp

/-! ## Numbers -/

/-- No part of a number goes on with this text. -/
def EndsNumber (r : List Char) : Prop :=
  ∀ c ∈ r.head?, Text.isDigit c = false ∧ c ≠ '.' ∧ c ≠ 'e' ∧ c ≠ 'E'

theorem scanDigits_append
    {s digits r more : List Char}
    (h : scanDigits s = (digits, r)) (hm : EndsNumber more) :
    scanDigits (s ++ more) = (digits, r ++ more) := by
  induction s generalizing digits with
  | nil =>
      cases h
      cases more with
      | nil => rfl
      | cons c more => simp [scanDigits, (hm c rfl).1]
  | cons c s ih =>
      by_cases hc : Text.isDigit c
      · simp only [scanDigits, hc, List.takeWhile_cons, List.dropWhile_cons,
          if_true, Prod.mk.injEq] at h
        obtain ⟨rfl, rfl⟩ := h
        have hs := ih rfl
        simp only [scanDigits, Prod.mk.injEq] at hs
        simp [scanDigits, hc, hs]
      · simp only [scanDigits, hc, List.takeWhile_cons, List.dropWhile_cons,
          Bool.false_eq_true, if_false, Prod.mk.injEq] at h
        obtain ⟨rfl, rfl⟩ := h
        simp [scanDigits, hc]

/-- A whole part is a row of digits, which starts with a zero only if it is one. -/
theorem scanWhole?_eq_some_iff {s digits r : List Char} :
    scanWhole? s = some (digits, r) ↔
      scanDigits s = (digits, r) ∧ digits ≠ [] ∧
        ∀ more, digits = '0' :: more → more = [] := by
  unfold scanWhole?
  rcases scanDigits s with ⟨d, t⟩
  split
  · next h => cases h; grind
  · next h => cases h; grind
  · next h => cases h; grind
  · next h => cases h; grind

theorem scanWhole?_append
    {s digits r more : List Char}
    (h : scanWhole? s = some (digits, r)) (hm : EndsNumber more) :
    scanWhole? (s ++ more) = some (digits, r ++ more) := by
  obtain ⟨hs, hd⟩ := scanWhole?_eq_some_iff.1 h
  exact scanWhole?_eq_some_iff.2 ⟨scanDigits_append hs hm, hd⟩

theorem scanFraction?_point {s digits r : List Char} :
    scanFraction? ('.' :: s) = some (digits, r) ↔
      scanDigits s = (digits, r) ∧ digits ≠ [] := by
  simp only [scanFraction?]
  rcases scanDigits s with ⟨d, t⟩
  cases d with
  | nil =>
      simp only [reduceCtorEq, Prod.mk.injEq, false_iff]
      grind
  | cons c d =>
      simp only [Option.some.injEq, Prod.mk.injEq]
      grind

theorem scanFraction?_of_ne {s : List Char} (h : s.head? ≠ some '.') :
    scanFraction? s = some ([], s) := by
  unfold scanFraction?
  split
  · simp at h
  · rfl

theorem scanFraction?_append
    {s digits r more : List Char}
    (h : scanFraction? s = some (digits, r)) (hm : EndsNumber more) :
    scanFraction? (s ++ more) = some (digits, r ++ more) := by
  by_cases hp : s.head? = some '.'
  · obtain ⟨s, rfl⟩ : ∃ t, s = '.' :: t := by
      cases s <;> simp_all
    obtain ⟨hs, hd⟩ := scanFraction?_point.1 h
    exact scanFraction?_point.2 ⟨scanDigits_append hs hm, hd⟩
  · rw [scanFraction?_of_ne hp] at h
    cases h
    apply scanFraction?_of_ne
    cases s with
    | nil => 
        intro hh
        exact (hm '.' hh).2.1 rfl
    | cons c s => simpa using hp

theorem scanExponentDigits?_append
    {negative : Bool} {s r more : List Char} {e : Option Int}
    (h : scanExponentDigits? negative s = some (e, r))
    (hm : EndsNumber more) :
    scanExponentDigits? negative (s ++ more) = some (e, r ++ more) := by
  unfold scanExponentDigits? at h ⊢
  cases hs : scanDigits s with
  | mk d t =>
      rw [scanDigits_append hs hm]
      rw [hs] at h
      cases d with
      | nil => cases h
      | cons c d =>
          simp only [Option.some.injEq, Prod.mk.injEq] at h ⊢
          exact ⟨h.1, by rw [h.2]⟩

theorem scanExponent?_append
    {s r more : List Char} {e : Option Int}
    (h : scanExponent? s = some (e, r)) (hm : EndsNumber more) :
    scanExponent? (s ++ more) = some (e, r ++ more) := by
  cases s with
  | nil =>
      cases h
      cases more with
      | nil => rfl
      | cons c more =>
          obtain ⟨_, _, he, hE⟩ := hm c rfl
          simp [scanExponent?, he, hE]
  | cons c s =>
      by_cases hc : c = 'e' ∨ c = 'E'
      · simp only [scanExponent?, if_pos hc, List.cons_append] at h ⊢
        cases s with
        | nil => cases h
        | cons d s =>
            by_cases hp : d = '+'
            · subst hp
              exact scanExponentDigits?_append h hm
            by_cases hn : d = '-'
            · subst hn
              exact scanExponentDigits?_append h hm
            · have digits : scanExponentDigits? false (d :: s) =
                  some (e, r) := by
                simpa [hp, hn] using h
              have := scanExponentDigits?_append digits hm
              simpa [hp, hn] using this
      · simp only [scanExponent?, if_neg hc, List.cons_append,
          Option.some.injEq, Prod.mk.injEq] at h ⊢
        obtain ⟨rfl, rfl⟩ := h
        simp

theorem scanUnsigned?_append
    {negative : Bool} {s r more : List Char} {t : NumberText}
    (h : scanUnsigned? negative s = some (t, r)) (hm : EndsNumber more) :
    scanUnsigned? negative (s ++ more) = some (t, r ++ more) := by
  simp only [scanUnsigned?, Option.bind_eq_bind, Option.bind_eq_some_iff,
    Prod.exists] at h ⊢
  obtain ⟨w, s₁, h₁, f, s₂, h₂, e, s₃, h₃, h₄⟩ := h
  simp only [Option.some.injEq, Prod.mk.injEq] at h₄
  obtain ⟨rfl, rfl⟩ := h₄
  exact ⟨w, _, scanWhole?_append h₁ hm, f, _, scanFraction?_append h₂ hm, e, _,
    scanExponent?_append h₃ hm, rfl⟩

theorem scanNumber?_append
    {s r more : List Char} {t : NumberText}
    (h : scanNumber? s = some (t, r)) (hm : EndsNumber more) :
    scanNumber? (s ++ more) = some (t, r ++ more) := by
  cases s with
  | nil => simp [scanNumber?, scanUnsigned?, scanWhole?, scanDigits] at h
  | cons c s =>
      by_cases hc : c = '-'
      · subst hc
        exact scanUnsigned?_append h hm
      · have plain : scanNumber? (c :: s) = scanUnsigned? false (c :: s) := by
          simp [scanNumber?, hc]
        have plainMore : scanNumber? (c :: s ++ more) =
            scanUnsigned? false (c :: s ++ more) := by
          simp [scanNumber?, hc]
        rw [plain] at h
        rw [plainMore]
        exact scanUnsigned?_append h hm

/-- A number starts with a minus sign or a digit. -/
theorem scanNumber?_cons
    {c : Char} {s r : List Char} {t : NumberText}
    (h : scanNumber? (c :: s) = some (t, r)) :
    c = '-' ∨ Text.isDigit c = true := by
  by_cases hc : c = '-'
  · exact .inl hc
  · have hs : scanUnsigned? false (c :: s) = some (t, r) := by
      simp_all [scanNumber?]
    simp only [scanUnsigned?, Option.bind_eq_bind, Option.bind_eq_some_iff,
      Prod.exists] at hs
    obtain ⟨w, s₁, hw, -⟩ := hs
    obtain ⟨hd, hne, -⟩ := scanWhole?_eq_some_iff.1 hw
    right
    by_contra hn
    simp [scanDigits, hn] at hd
    exact hne hd.1

/-- A number that ends where it should is one token. -/
theorem scan_number
    {s r : List Char} {t : NumberText}
    (h : scanNumber? s = some (t, [])) (hr : EndsNumber r) :
    scan (s ++ r) = .number t :: scan r := by
  cases s with
  | nil => simp [scanNumber?, scanUnsigned?, scanWhole?, scanDigits] at h
  | cons c s =>
      have happ := scanNumber?_append h hr
      rw [List.nil_append, List.cons_append] at happ
      have hc : ∀ d : Char, d ≠ '-' → Text.isDigit d = false → c ≠ d := by
        rintro d hd hdigit rfl
        rcases scanNumber?_cons h with h | h
        · exact hd h
        · simp [hdigit] at h
      have hc' : ∀ d : Char, d ≠ '-' → Text.isDigit d = false → d ≠ c :=
        fun d h₁ h₂ => (hc d h₁ h₂).symm
      apply scan_cons_of_token
      · simp [isGap, hc, Text.isDigit]
      · simp [scanToken?, hc, hc', Text.isDigit, scanBare?, dropWord?, happ]

/-- The text of a number is one token, which stands for the number. -/
def Number.ReadsBack (n : Number) : Prop :=
  ∃ t, scanNumber? (printNumber n) = some (t, []) ∧ Number.ofText? t = some n

/-- An integer of 64 bits, with or without a sign. -/
def Number.IsInteger64 : Number → Prop
  | .integer n => -(Text.maxSigned64 : Int) - 1 ≤ n ∧ n ≤ Text.maxUnsigned64
  | .float _ => False

theorem decimalValue_append_digit (s : List Char) {d : Nat} (h : d < 10) :
    Text.decimalValue (s ++ [d.digitChar]) = Text.decimalValue s * 10 + d := by
  have hd : Text.digitValue d.digitChar = d :=
    Nat.toNat_digitChar_sub_48_of_lt_ten h
  simp [Text.decimalValue, hd]

/-- The digits of a number write the number. -/
theorem decimalValue_toDigits (n : Nat) :
    Text.decimalValue (Nat.toDigits 10 n) = n := by
  induction n using Nat.strongRecOn with
  | ind n ih =>
    rw [Nat.toDigits_eq_if (by decide)]
    split
    · next h => simpa [Text.decimalValue] using decimalValue_append_digit [] h
    · next h =>
        rw [decimalValue_append_digit _ (Nat.mod_lt n (by decide)),
          ih (n / 10) (by omega)]
        omega

/-- The digits of a number start with a zero only for zero. -/
theorem toDigits_of_zero {n : Nat} {more : List Char}
    (h : Nat.toDigits 10 n = '0' :: more) : more = [] := by
  induction n using Nat.strongRecOn generalizing more with
  | ind n ih =>
    rw [Nat.toDigits_eq_if (by decide)] at h
    split at h
    · simp only [List.cons.injEq] at h
      exact h.2.symm
    · next hn =>
        cases hd : Nat.toDigits 10 (n / 10) with
        | nil => exact absurd hd Nat.toDigits_ne_nil
        | cons c r =>
            rw [hd, List.cons_append] at h
            cases h
            have hr := ih (n / 10) (by omega) hd
            have := decimalValue_toDigits (n / 10)
            rw [hd, hr] at this
            have hz : Text.decimalValue ['0'] = 0 := by decide
            omega

/-- The digits of a number are scanned as a whole part. -/
theorem scanUnsigned?_toDigits (negative : Bool) (n : Nat) :
    scanUnsigned? negative (Nat.toDigits 10 n) =
      some (⟨negative, Nat.toDigits 10 n, [], none⟩, []) := by
  have hs : scanDigits (Nat.toDigits 10 n) = (Nat.toDigits 10 n, []) := by
    simp only [scanDigits, Prod.mk.injEq]
    exact ⟨List.takeWhile_eq_self_iff.2 fun c => Text.isDigit_of_mem_toDigits,
      List.dropWhile_eq_nil_iff.2 fun c => Text.isDigit_of_mem_toDigits⟩
  have hw := scanWhole?_eq_some_iff.2
    ⟨hs, Nat.toDigits_ne_nil, fun _ => toDigits_of_zero⟩
  simp [scanUnsigned?, hw, scanFraction?, scanExponent?]

theorem ofText?_negative_digits
    {s : List Char}
    (digits : ∀ c ∈ s, Text.isDigit c = true)
    (positive : 1 ≤ Text.decimalValue s)
    (fits : Text.decimalValue s ≤ Text.maxSigned64 + 1) :
    Number.ofText? ⟨true, s, [], none⟩ =
      some (.integer (-(Text.decimalValue s : Int))) := by
  have unsigned : Text.decimalValue s ≤ Text.maxUnsigned64 :=
    Nat.le_trans fits (by decide)
  have value : s.foldl (fun n c => n * 10 + Text.digitValue c) 0 =
      Text.decimalValue s := rfl
  simp [Number.ofText?, appendDigits_eq_absorb digits rfl unsigned,
    Number.ofWhole, value, positive, fits]

/-- Integers of 64 bits are read back. -/
theorem Number.IsInteger64.readsBack {n : Number} (h : n.IsInteger64) :
    n.ReadsBack := by
  match n, h with
  | .integer (.ofNat m), ⟨_, hle⟩ =>
      have hp : printNumber (.integer (.ofNat m)) = Nat.toDigits 10 m :=
        Nat.toList_repr
      have hc : ∀ c r, Nat.toDigits 10 m = c :: r → c ≠ '-' := by
        rintro c r h rfl
        have := Text.isDigit_of_mem_toDigits (n := m) (c := '-') (by simp [h])
        cases this
      refine ⟨⟨false, Nat.toDigits 10 m, [], none⟩, ?_, ?_⟩
      · rw [hp, ← scanUnsigned?_toDigits false m]
        cases hd : Nat.toDigits 10 m with
        | nil => exact absurd hd Nat.toDigits_ne_nil
        | cons c r => simp [scanNumber?, hc c r hd]
      · have hm := decimalValue_toDigits m
        rw [ofText?_digits fun c => Text.isDigit_of_mem_toDigits]
        · simp [hm]
        · rw [hm]
          exact Int.ofNat_le.1 hle
  | .integer (.negSucc m), ⟨hle, _⟩ =>
      have hp : printNumber (.integer (.negSucc m)) =
          '-' :: Nat.toDigits 10 (m + 1) := by
        have : (toString (Int.negSucc m)) = "-" ++ Nat.repr (m + 1) := rfl
        rw [printNumber, this]
        simp [Nat.toList_repr]
      refine ⟨⟨true, Nat.toDigits 10 (m + 1), [], none⟩, ?_, ?_⟩
      · rw [hp]
        exact scanUnsigned?_toDigits true (m + 1)
      · have hm := decimalValue_toDigits (m + 1)
        rw [ofText?_negative_digits fun c => Text.isDigit_of_mem_toDigits]
        · rw [hm]
          rfl
        · omega
        · rw [hm]
          have : (Text.maxSigned64 : Int) = 9223372036854775807 := rfl
          omega

end Json
end Reclaim
