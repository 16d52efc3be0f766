/-!
# UTF-8

Bytes are decoded one after the other.  Between characters the first byte of a
character says which bytes may come second and how many must follow; inside a
character the machine knows the range of the next byte.  A refusal says where
the faulty sequence starts and how many of its bytes can belong to no
character, or that the input ends inside a character.

Main result: `decode_encode` says that every text is read back from its bytes.
-/

namespace Reclaim
namespace Text
namespace Utf8

/-- Why bytes are not UTF-8. -/
structure Fault where
  /-- Where the faulty sequence starts. -/
  index : Nat
  /-- The length of the faulty sequence, unless the input ends inside it. -/
  length : Option Nat
  deriving DecidableEq, Repr

namespace Fault

/-- The wording of a fault. -/
def message (f : Fault) : String :=
  match f.length with
  | some n =>
      "invalid utf-8 sequence of " ++ toString n ++ " bytes from index "
        ++ toString f.index
  | none =>
      "incomplete utf-8 byte sequence from index " ++ toString f.index

end Fault

/-- A character of which some bytes have been read. -/
structure Pending where
  /-- The bits read so far. -/
  bits : Nat
  /-- The least next byte. -/
  low : Nat
  /-- The greatest next byte. -/
  high : Nat
  /-- How many bytes must follow the next one. -/
  further : Nat
  /-- How many bytes have been read. -/
  taken : Nat
  deriving DecidableEq, Repr

/-- What the first byte of a character of several bytes announces. -/
def announced? (b : Nat) : Option Pending :=
  if 0xC2 ≤ b ∧ b ≤ 0xDF then some ⟨b - 0xC0, 0x80, 0xBF, 0, 1⟩
  else if b = 0xE0 then some ⟨b - 0xE0, 0xA0, 0xBF, 1, 1⟩
  else if b = 0xED then some ⟨b - 0xE0, 0x80, 0x9F, 1, 1⟩
  else if 0xE1 ≤ b ∧ b ≤ 0xEF then some ⟨b - 0xE0, 0x80, 0xBF, 1, 1⟩
  else if b = 0xF0 then some ⟨b - 0xF0, 0x90, 0xBF, 2, 1⟩
  else if 0xF1 ≤ b ∧ b ≤ 0xF3 then some ⟨b - 0xF0, 0x80, 0xBF, 2, 1⟩
  else if b = 0xF4 then some ⟨b - 0xF0, 0x80, 0x8F, 2, 1⟩
  else none

/-- Decodes from between characters (`none`) or inside one, which starts at `index`. -/
def decodeFrom (index : Nat) :
    Option Pending → List UInt8 → Except Fault (List Char)
  | none, [] => .ok []
  | some _, [] => .error ⟨index, none⟩
  | none, b :: r =>
      if b.toNat < 0x80 then
        (Char.ofNat b.toNat :: ·) <$> decodeFrom (index + 1) none r
      else
        match announced? b.toNat with
        | some p => decodeFrom index (some p) r
        | none => .error ⟨index, some 1⟩
  | some p, b :: r =>
      if p.low ≤ b.toNat ∧ b.toNat ≤ p.high then
        match p.further with
        | 0 =>
            (Char.ofNat (p.bits * 64 + (b.toNat - 0x80)) :: ·)
              <$> decodeFrom (index + p.taken + 1) none r
        | n + 1 =>
            decodeFrom index
              (some ⟨p.bits * 64 + (b.toNat - 0x80), 0x80, 0xBF, n,
                p.taken + 1⟩) r
      else
        .error ⟨index, some p.taken⟩

/-- The characters that the bytes write. -/
def decode (bytes : List UInt8) : Except Fault (List Char) :=
  decodeFrom 0 none bytes

/-- The bytes of one character. -/
def encodeChar (c : Char) : List UInt8 :=
  let n := c.toNat
  if n < 0x80 then [UInt8.ofNat n]
  else if n < 0x800 then
    [UInt8.ofNat (0xC0 + n / 64), UInt8.ofNat (0x80 + n % 64)]
  else if n < 0x10000 then
    [UInt8.ofNat (0xE0 + n / 4096), UInt8.ofNat (0x80 + n / 64 % 64),
      UInt8.ofNat (0x80 + n % 64)]
  else
    [UInt8.ofNat (0xF0 + n / 262144), UInt8.ofNat (0x80 + n / 4096 % 64),
      UInt8.ofNat (0x80 + n / 64 % 64), UInt8.ofNat (0x80 + n % 64)]

/-- The bytes that write the characters. -/
def encode (s : List Char) : List UInt8 :=
  s.flatMap encodeChar

theorem toNat_ofNat_of_lt
    {n : Nat} (h : n < 256) :
    (UInt8.ofNat n).toNat = n := by
  simp [Nat.mod_eq_of_lt h]

/-- Decoding reads one written character and goes on behind it. -/
theorem decodeFrom_encodeChar
    (index : Nat) (c : Char) (r : List UInt8) :
    decodeFrom index none (encodeChar c ++ r) =
      (c :: ·) <$> decodeFrom (index + (encodeChar c).length) none r := by
  have valid : c.toNat < 0xD800 ∨ (0xDFFF < c.toNat ∧ c.toNat < 0x110000) :=
    c.valid
  have back : Char.ofNat c.toNat = c := Char.ofNat_toNat c
  by_cases h₁ : c.toNat < 0x80
  · simp [encodeChar, h₁, decodeFrom, Nat.mod_eq_of_lt, back,
      Nat.lt_trans h₁ (by decide : 0x80 < 256)]
  by_cases h₂ : c.toNat < 0x800
  · have e₁ : (UInt8.ofNat (0xC0 + c.toNat / 64)).toNat = 0xC0 + c.toNat / 64 :=
      toNat_ofNat_of_lt (by omega)
    have e₂ : (UInt8.ofNat (0x80 + c.toNat % 64)).toNat = 0x80 + c.toNat % 64 :=
      toNat_ofNat_of_lt (by omega)
    have ha : announced? (0xC0 + c.toNat / 64) =
        some ⟨c.toNat / 64, 0x80, 0xBF, 0, 1⟩ := by
      rw [announced?, if_pos (by omega)]
      simp
    have hc : c.toNat / 64 * 64 + c.toNat % 64 = c.toNat := by omega
    simp only [encodeChar, h₁, h₂, if_false, if_true, List.cons_append,
      List.nil_append, decodeFrom, e₁, e₂, ha]
    rw [if_neg (by omega), if_pos (by omega)]
    simp [hc, back]
  by_cases h₃ : c.toNat < 0x10000
  · have e₁ : (UInt8.ofNat (0xE0 + c.toNat / 4096)).toNat =
        0xE0 + c.toNat / 4096 := toNat_ofNat_of_lt (by omega)
    have e₂ : (UInt8.ofNat (0x80 + c.toNat / 64 % 64)).toNat =
        0x80 + c.toNat / 64 % 64 := toNat_ofNat_of_lt (by omega)
    have e₃ : (UInt8.ofNat (0x80 + c.toNat % 64)).toNat =
        0x80 + c.toNat % 64 := toNat_ofNat_of_lt (by omega)
    have ha : ∃ low high, announced? (0xE0 + c.toNat / 4096) =
          some ⟨c.toNat / 4096, low, high, 1, 1⟩ ∧
        low ≤ 0x80 + c.toNat / 64 % 64 ∧ 0x80 + c.toNat / 64 % 64 ≤ high := by
      unfold announced?
      by_cases g₁ : c.toNat / 4096 = 0
      · refine ⟨0xA0, 0xBF, ?_, by omega, by omega⟩
        rw [if_neg (by omega), if_pos (by omega)]
        simp
      by_cases g₂ : c.toNat / 4096 = 13
      · refine ⟨0x80, 0x9F, ?_, by omega, by omega⟩
        rw [if_neg (by omega), if_neg (by omega), if_pos (by omega)]
        simp
      · refine ⟨0x80, 0xBF, ?_, by omega, by omega⟩
        rw [if_neg (by omega), if_neg (by omega), if_neg (by omega),
          if_pos (by omega)]
        simp
    obtain ⟨low, high, ha, hlow, hhigh⟩ := ha
    have hc : (c.toNat / 4096 * 64 + c.toNat / 64 % 64) * 64 + c.toNat % 64 =
        c.toNat := by omega
    simp only [encodeChar, h₁, h₂, h₃, if_false, if_true, List.cons_append,
      List.nil_append, decodeFrom, e₁, e₂, e₃, ha]
    rw [if_neg (by omega), if_pos ⟨hlow, hhigh⟩, if_pos (by omega)]
    simp [hc, back]
  · have e₁ : (UInt8.ofNat (0xF0 + c.toNat / 262144)).toNat =
        0xF0 + c.toNat / 262144 := toNat_ofNat_of_lt (by omega)
    have e₂ : (UInt8.ofNat (0x80 + c.toNat / 4096 % 64)).toNat =
        0x80 + c.toNat / 4096 % 64 := toNat_ofNat_of_lt (by omega)
    have e₃ : (UInt8.ofNat (0x80 + c.toNat / 64 % 64)).toNat =
        0x80 + c.toNat / 64 % 64 := toNat_ofNat_of_lt (by omega)
    have e₄ : (UInt8.ofNat (0x80 + c.toNat % 64)).toNat =
        0x80 + c.toNat % 64 := toNat_ofNat_of_lt (by omega)
    have ha : ∃ low high, announced? (0xF0 + c.toNat / 262144) =
          some ⟨c.toNat / 262144, low, high, 2, 1⟩ ∧
        low ≤ 0x80 + c.toNat / 4096 % 64 ∧
        0x80 + c.toNat / 4096 % 64 ≤ high := by
      unfold announced?
      by_cases g₁ : c.toNat / 262144 = 0
      · refine ⟨0x90, 0xBF, ?_, by omega, by omega⟩
        rw [if_neg (by omega), if_neg (by omega), if_neg (by omega),
          if_neg (by omega), if_pos (by omega)]
        simp
      by_cases g₂ : c.toNat / 262144 = 4
      · refine ⟨0x80, 0x8F, ?_, by omega, by omega⟩
        rw [if_neg (by omega), if_neg (by omega), if_neg (by omega),
          if_neg (by omega), if_neg (by omega), if_neg (by omega),
          if_pos (by omega)]
        simp
      · refine ⟨0x80, 0xBF, ?_, by omega, by omega⟩
        rw [if_neg (by omega), if_neg (by omega), if_neg (by omega),
          if_neg (by omega), if_neg (by omega), if_pos (by omega)]
        simp
    obtain ⟨low, high, ha, hlow, hhigh⟩ := ha
    have hc : ((c.toNat / 262144 * 64 + c.toNat / 4096 % 64) * 64 +
        c.toNat / 64 % 64) * 64 + c.toNat % 64 = c.toNat := by omega
    simp only [encodeChar, h₁, h₂, h₃, if_false, List.cons_append,
      List.nil_append, decodeFrom, e₁, e₂, e₃, e₄, ha]
    rw [if_neg (by omega), if_pos ⟨hlow, hhigh⟩, if_pos (by omega),
      if_pos (by omega)]
    simp [hc, back]

theorem decodeFrom_encode (index : Nat) (s : List Char) :
    decodeFrom index none (encode s) = .ok s := by
  induction s generalizing index with
  | nil => rfl
  | cons c r ih =>
      have h := decodeFrom_encodeChar index c (encode r)
      rw [ih] at h
      rw [encode, List.flatMap_cons]
      exact h

/-- Every text is read back from its bytes. -/
theorem decode_encode (s : List Char) :
    decode (encode s) = .ok s :=
  decodeFrom_encode 0 s

end Utf8
end Text
end Reclaim
