import Reclaim.Text.Digit

/-!
# JSON tokens

A text is cut into punctuation, literals, numbers and strings; blanks between
them are dropped.  Numbers and strings keep their written form, because what
they may contain depends on who reads them: a number may turn out too large and
an escaped code unit may lack its partner.  A text that breaks the grammar of
tokens ends in the token `bad`.
-/

namespace Reclaim
namespace Json

/-- A written number. -/
structure NumberText where
  negative : Bool
  whole : List Char
  fraction : List Char
  exponent : Option Int
  deriving DecidableEq, Repr

/-- A part of a written string: a character, or the code unit of a `\u` escape. -/
inductive StringPart
  | plain (c : Char)
  | unit (n : Nat)
  deriving DecidableEq, Repr

/-- A token. -/
inductive Token
  | openObject
  | closeObject
  | openArray
  | closeArray
  | colon
  | comma
  | null
  | bool (b : Bool)
  | number (n : NumberText)
  | string (parts : List StringPart)
  | bad
  deriving DecidableEq, Repr

/-- The blanks between tokens. -/
def isGap (c : Char) : Bool :=
  c = ' ' || c = '\t' || c = '\n' || c = '\r'

/-- The character of a short escape. -/
def shortEscape? (c : Char) : Option Char :=
  if c = '"' then some '"'
  else if c = '\\' then some '\\'
  else if c = '/' then some '/'
  else if c = 'b' then some '\x08'
  else if c = 'f' then some '\x0c'
  else if c = 'n' then some '\n'
  else if c = 'r' then some '\r'
  else if c = 't' then some '\t'
  else none

/-- The number of four hexadecimal digits. -/
def codeUnit? (a b c d : Char) : Option Nat := do
  let a ← Text.hexValue? a
  let b ← Text.hexValue? b
  let c ← Text.hexValue? c
  let d ← Text.hexValue? d
  some (((a * 16 + b) * 16 + c) * 16 + d)

/-- The parts of a string up to its closing quote, and what follows the quote. -/
def scanString : List Char → Option (List StringPart × List Char)
  | [] => none
  | '"' :: r => some ([], r)
  | '\\' :: 'u' :: a :: b :: c :: d :: r =>
      match codeUnit? a b c d, scanString r with
      | some n, some (parts, r) => some (.unit n :: parts, r)
      | _, _ => none
  | '\\' :: e :: r =>
      match shortEscape? e, scanString r with
      | some c, some (parts, r) => some (.plain c :: parts, r)
      | _, _ => none
  | c :: r =>
      if c.toNat < 0x20 ∨ c = '\\' then none
      else
        match scanString r with
        | some (parts, r) => some (.plain c :: parts, r)
        | none => none

/-- The digits at the start of a text and what follows them. -/
def scanDigits (s : List Char) : List Char × List Char :=
  (s.takeWhile Text.isDigit, s.dropWhile Text.isDigit)

/-- The whole part of a number: a single zero, or digits without a zero in front. -/
def scanWhole? (s : List Char) : Option (List Char × List Char) :=
  match scanDigits s with
  | ([], _) => none
  | (['0'], r) => some (['0'], r)
  | ('0' :: _, _) => none
  | (digits, r) => some (digits, r)

/-- The digits behind a point, at least one; none if there is no point. -/
def scanFraction? : List Char → Option (List Char × List Char)
  | '.' :: r =>
      match scanDigits r with
      | ([], _) => none
      | (digits, r) => some (digits, r)
  | s => some ([], s)

/-- The exponent behind a sign. -/
def scanExponentDigits? (negative : Bool) (s : List Char) :
    Option (Option Int × List Char) :=
  match scanDigits s with
  | ([], _) => none
  | (digits, r) =>
      let n : Int := Text.decimalValue digits
      some (some (if negative then -n else n), r)

/-- The exponent, if there is one. -/
def scanExponent? : List Char → Option (Option Int × List Char)
  | c :: r =>
      if c = 'e' ∨ c = 'E' then
        match r with
        | '+' :: r => scanExponentDigits? false r
        | '-' :: r => scanExponentDigits? true r
        | r => scanExponentDigits? false r
      else
        some (none, c :: r)
  | [] => some (none, [])

/-- A number behind its sign, and what follows it. -/
def scanUnsigned? (negative : Bool) (s : List Char) :
    Option (NumberText × List Char) := do
  let (whole, s) ← scanWhole? s
  let (fraction, s) ← scanFraction? s
  let (exponent, s) ← scanExponent? s
  some (⟨negative, whole, fraction, exponent⟩, s)

/-- A number and what follows it. -/
def scanNumber? : List Char → Option (NumberText × List Char)
  | '-' :: r => scanUnsigned? true r
  | s => scanUnsigned? false s

/-- What follows a word. -/
def dropWord? : List Char → List Char → Option (List Char)
  | [], s => some s
  | w :: ws, c :: r => if w = c then dropWord? ws r else none
  | _ :: _, [] => none

/-- A word or a number and what follows it. -/
def scanBare? (s : List Char) : Option (Token × List Char) :=
  match dropWord? "null".toList s with
  | some r => some (.null, r)
  | none =>
    match dropWord? "true".toList s with
    | some r => some (.bool true, r)
    | none =>
      match dropWord? "false".toList s with
      | some r => some (.bool false, r)
      | none =>
        match scanNumber? s with
        | some (n, r) => some (.number n, r)
        | none => none

/-- One token that starts with the given character, and what follows it. -/
def scanToken? (c : Char) (r : List Char) : Option (Token × List Char) :=
  if c = '\x7b' then some (.openObject, r)
  else if c = '\x7d' then some (.closeObject, r)
  else if c = '[' then some (.openArray, r)
  else if c = ']' then some (.closeArray, r)
  else if c = ':' then some (.colon, r)
  else if c = ',' then some (.comma, r)
  else if c = '"' then
    match scanString r with
    | some (parts, r) => some (.string parts, r)
    | none => none
  else scanBare? (c :: r)

theorem length_scanString
    {s r : List Char} {parts : List StringPart}
    (h : scanString s = some (parts, r)) :
    r.length < s.length := by
  fun_induction scanString s generalizing parts r <;> simp_all <;> grind

theorem length_scanDigits (s : List Char) :
    (scanDigits s).2.length + (scanDigits s).1.length = s.length := by
  have h := congrArg List.length (List.takeWhile_append_dropWhile (p := Text.isDigit) (l := s))
  simp only [List.length_append] at h
  simp only [scanDigits]
  omega

theorem length_scanWhole?
    {s r digits : List Char}
    (h : scanWhole? s = some (digits, r)) :
    r.length < s.length := by
  have hl := length_scanDigits s
  simp only [scanWhole?] at h
  split at h
  · simp at h
  · next heq =>
      simp only [heq, List.length_cons] at hl
      simp at h
      grind
  · simp at h
  · next d r' hne _ _ heq =>
      simp only [heq] at hl
      have := List.length_pos_iff.2 hne
      simp at h
      grind

theorem length_scanFraction?
    {s r digits : List Char}
    (h : scanFraction? s = some (digits, r)) :
    r.length ≤ s.length := by
  unfold scanFraction? at h
  split at h
  · next t =>
      have hl := length_scanDigits t
      split at h <;> simp_all
      grind
  · simp_all

theorem length_scanExponentDigits?
    {negative : Bool} {s r : List Char} {e : Option Int}
    (h : scanExponentDigits? negative s = some (e, r)) :
    r.length ≤ s.length := by
  have hl := length_scanDigits s
  simp only [scanExponentDigits?] at h
  split at h <;> simp_all
  grind

theorem length_scanExponent?
    {s r : List Char} {e : Option Int}
    (h : scanExponent? s = some (e, r)) :
    r.length ≤ s.length := by
  unfold scanExponent? at h
  split at h
  · split at h
    · split at h
      · have := length_scanExponentDigits? h
        simp
        omega
      · have := length_scanExponentDigits? h
        simp
        omega
      · have := length_scanExponentDigits? h
        simp
        omega
    · simp_all
  · simp_all

theorem length_scanUnsigned?
    {negative : Bool} {s r : List Char} {n : NumberText}
    (h : scanUnsigned? negative s = some (n, r)) :
    r.length < s.length := by
  simp only [scanUnsigned?, Option.bind_eq_bind, Option.bind_eq_some_iff,
    Prod.exists] at h
  obtain ⟨w, s₁, h₁, f, s₂, h₂, e, s₃, h₃, h₄⟩ := h
  simp at h₄
  have g₁ := length_scanWhole? h₁
  have g₂ := length_scanFraction? h₂
  have g₃ := length_scanExponent? h₃
  obtain ⟨_, rfl⟩ := h₄
  omega

theorem length_scanNumber?
    {s r : List Char} {n : NumberText}
    (h : scanNumber? s = some (n, r)) :
    r.length < s.length := by
  unfold scanNumber? at h
  split at h
  · have := length_scanUnsigned? h
    simp
    omega
  · exact length_scanUnsigned? h

theorem length_dropWord?
    {w s r : List Char}
    (h : dropWord? w s = some r) :
    r.length + w.length = s.length := by
  fun_induction dropWord? w s <;> simp_all
  omega

theorem length_scanBare?
    {s r : List Char} {t : Token}
    (h : scanBare? s = some (t, r)) :
    r.length < s.length := by
  unfold scanBare? at h
  split at h
  · next hw =>
      have := length_dropWord? hw
      simp_all
      omega
  · split at h
    · next hw =>
        have := length_dropWord? hw
        simp_all
        omega
    · split at h
      · next hw =>
          have := length_dropWord? hw
          simp_all
          omega
      · split at h
        · next hn =>
            have := length_scanNumber? hn
            simp_all
        · simp at h

theorem length_scanToken?
    {c : Char} {s r : List Char} {t : Token}
    (h : scanToken? c s = some (t, r)) :
    r.length ≤ s.length := by
  have bare : ∀ {t r}, scanBare? (c :: s) = some (t, r) →
      r.length ≤ s.length := by
    intro t r hb
    have := length_scanBare? hb
    simp at this
    omega
  have quote : ∀ {t r}, (match scanString s with
      | some (parts, r) => some (Token.string parts, r)
      | none => none) = some (t, r) → r.length ≤ s.length := by
    intro t r hq
    split at hq
    · next hs =>
        have := length_scanString hs
        simp at hq
        grind
    · simp at hq
  unfold scanToken? at h
  split at h
  · simp at h; grind
  split at h
  · simp at h; grind
  split at h
  · simp at h; grind
  split at h
  · simp at h; grind
  split at h
  · simp at h; grind
  split at h
  · simp at h; grind
  split at h
  · exact quote h
  · exact bare h

/-- The tokens of a text. -/
def scan : List Char → List Token
  | [] => []
  | c :: r =>
      if isGap c then scan r
      else
        match _h : scanToken? c r with
        | some (t, r') => t :: scan r'
        | none => [.bad]
termination_by s => s.length
decreasing_by
  · simp
  · have := length_scanToken? _h
    simp
    omega

end Json
end Reclaim
