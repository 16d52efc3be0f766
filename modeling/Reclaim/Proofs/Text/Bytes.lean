import Reclaim.Proofs.Success
import Reclaim.Text.Utf8

/-!
# ASCII characters among bytes

A byte below 128 stands for the character of its number and for nothing else:
characters beyond ASCII are written with higher bytes only, and overlong forms
are refused.

Main results: `mem_of_mem_encode` and `mem_of_mem_decode`.
-/

namespace Reclaim
namespace Text
namespace Utf8

theorem high_of_eq_ofNat
    {b : UInt8} {n : Nat} (h : b = UInt8.ofNat n) (low : 0x80 ≤ n)
    (high : n < 256) : 0x80 ≤ b.toNat := by
  rw [h, toNat_ofNat_of_lt high]
  exact low

/-- The bytes of characters beyond ASCII start at 128. -/
theorem high_of_mem_encodeChar
    {b : UInt8} {c : Char} (long : ¬ c.toNat < 0x80) (h : b ∈ encodeChar c) :
    0x80 ≤ b.toNat := by
  have valid : c.toNat < 0xD800 ∨ (0xDFFF < c.toNat ∧ c.toNat < 0x110000) :=
    c.valid
  simp only [encodeChar, if_neg long] at h
  split at h
  · simp only [List.mem_cons, List.not_mem_nil, or_false] at h
    rcases h with h | h
    · exact high_of_eq_ofNat h (by omega) (by omega)
    · exact high_of_eq_ofNat h (by omega) (by omega)
  · split at h
    · simp only [List.mem_cons, List.not_mem_nil, or_false] at h
      rcases h with h | h | h
      · exact high_of_eq_ofNat h (by omega) (by omega)
      · exact high_of_eq_ofNat h (by omega) (by omega)
      · exact high_of_eq_ofNat h (by omega) (by omega)
    · simp only [List.mem_cons, List.not_mem_nil, or_false] at h
      rcases h with h | h | h | h
      · exact high_of_eq_ofNat h (by omega) (by omega)
      · exact high_of_eq_ofNat h (by omega) (by omega)
      · exact high_of_eq_ofNat h (by omega) (by omega)
      · exact high_of_eq_ofNat h (by omega) (by omega)

theorem eq_of_mem_encodeChar
    {b : UInt8} {c : Char} (low : b.toNat < 0x80) (h : b ∈ encodeChar c) :
    c.toNat = b.toNat := by
  by_cases hc : c.toNat < 0x80
  · simp only [encodeChar, if_pos hc] at h
    obtain rfl := List.mem_singleton.1 h
    exact (toNat_ofNat_of_lt (by omega)).symm
  · exact absurd low (Nat.not_lt.2 (high_of_mem_encodeChar hc h))

/-- A byte below 128 is among the bytes of its character only. -/
theorem mem_of_mem_encode
    {b : UInt8} {s : List Char} (low : b.toNat < 0x80) (h : b ∈ encode s) :
    Char.ofNat b.toNat ∈ s := by
  obtain ⟨c, hc, hb⟩ := List.mem_flatMap.1 h
  rw [← eq_of_mem_encodeChar low hb, Char.ofNat_toNat]
  exact hc

/-- Of a character of several bytes, enough bits are known or to come. -/
def Pending.Long (p : Pending) : Prop :=
  0x80 ≤ p.low ∧ (2 ≤ p.bits ∨ (0 < p.further ∧ (1 ≤ p.bits ∨ 0x82 ≤ p.low)))

theorem long_of_announced?
    {b : Nat} {p : Pending} (h : announced? b = some p) : p.Long := by
  unfold announced? at h
  unfold Pending.Long
  repeat' split at h
  all_goals simp only [Option.some.injEq, reduceCtorEq] at h
  all_goals
    subst h
    dsimp only
    omega

theorem toNat_charOfNat_of_valid {n : Nat} (h : n.isValidChar) :
    (Char.ofNat n).toNat = n := by
  rw [Char.ofNat, dif_pos h]
  rfl

theorem toNat_charOfNat_of_invalid {n : Nat} (h : ¬ n.isValidChar) :
    (Char.ofNat n).toNat = 0 := by
  rw [Char.ofNat, dif_neg h]
  rfl

/-- What several bytes write is beyond ASCII or no character at all. -/
theorem not_ascii_ofNat
    {n : Nat} {c : Char} (h : 0x80 ≤ n) (positive : 0 < c.toNat)
    (ascii : c.toNat < 0x80) : c ≠ Char.ofNat n := by
  rintro rfl
  by_cases valid : n.isValidChar
  · rw [toNat_charOfNat_of_valid valid] at ascii
    omega
  · rw [toNat_charOfNat_of_invalid valid] at positive
    omega

/-- An ASCII character that is decoded stands among the bytes. -/
theorem mem_of_mem_decodeFrom
    {index : Nat} {pending : Option Pending} {bytes : List UInt8}
    {s : List Char} {c : Char} (positive : 0 < c.toNat)
    (ascii : c.toNat < 0x80) (long : ∀ p ∈ pending, p.Long)
    (decoded : decodeFrom index pending bytes = .ok s) (h : c ∈ s) :
    UInt8.ofNat c.toNat ∈ bytes := by
  induction bytes generalizing index pending s with
  | nil =>
      cases pending with
      | none =>
          cases decoded
          cases h
      | some p => cases decoded
  | cons b r ih =>
      cases pending with
      | none =>
          rw [decodeFrom] at decoded
          split at decoded
          · next hb =>
              obtain ⟨t, ht, rfl⟩ := Success.of_map decoded
              rcases List.mem_cons.1 h with rfl | h
              · have valid : b.toNat.isValidChar := .inl (by omega)
                rw [toNat_charOfNat_of_valid valid, UInt8.ofNat_toNat]
                exact List.mem_cons_self
              · exact List.mem_cons_of_mem b (ih (by simp) ht h)
          · split at decoded
            · next p hp =>
                refine List.mem_cons_of_mem b (ih ?_ decoded h)
                rintro q ⟨⟩
                exact long_of_announced? hp
            · cases decoded
      | some p =>
          obtain ⟨hlow, hbits⟩ := long p rfl
          rw [decodeFrom] at decoded
          split at decoded
          · split at decoded
            · obtain ⟨t, ht, rfl⟩ := Success.of_map decoded
              rcases List.mem_cons.1 h with heq | h
              · exact absurd heq (not_ascii_ofNat (by omega) positive ascii)
              · exact List.mem_cons_of_mem b (ih (by simp) ht h)
            · refine List.mem_cons_of_mem b (ih ?_ decoded h)
              intro q hq
              obtain rfl := Option.some.inj hq
              refine ⟨Nat.le_refl _, .inl ?_⟩
              dsimp only
              omega
          · cases decoded

/-- An ASCII character that is decoded stands among the bytes. -/
theorem mem_of_mem_decode
    {bytes : List UInt8} {s : List Char} {c : Char} (positive : 0 < c.toNat)
    (ascii : c.toNat < 0x80) (decoded : decode bytes = .ok s) (h : c ∈ s) :
    UInt8.ofNat c.toNat ∈ bytes :=
  mem_of_mem_decodeFrom positive ascii (by simp) decoded h

end Utf8
end Text
end Reclaim
