import Reclaim.Text.Digit

/-!
# Texts without control characters

The control characters are those before the blank; tabs and newlines, which
separate fields and lines, are among them.
-/

namespace Reclaim
namespace Text

/-- None of the control characters at the start of ASCII is among the characters. -/
def Printable (s : List Char) : Prop :=
  ∀ c ∈ s, 0x20 ≤ c.toNat

instance (s : List Char) : Decidable (Printable s) :=
  List.decidableBAll (fun c : Char => 0x20 ≤ c.toNat) s

theorem printable_nil : Printable [] := by
  simp [Printable]

theorem printable_cons {c : Char} {s : List Char} :
    Printable (c :: s) ↔ 0x20 ≤ c.toNat ∧ Printable s := by
  simp [Printable]

theorem printable_append {s t : List Char} :
    Printable (s ++ t) ↔ Printable s ∧ Printable t := by
  simp only [Printable, List.mem_append]
  constructor
  · exact fun h => ⟨fun c hc => h c (.inl hc), fun c hc => h c (.inr hc)⟩
  · rintro ⟨hs, ht⟩ c (hc | hc)
    · exact hs c hc
    · exact ht c hc

theorem Printable.mono {s t : List Char} (h : Printable t) (sub : s ⊆ t) :
    Printable s :=
  fun c hc => h c (sub hc)

/-- A control character is not in a text without control characters. -/
theorem Printable.not_mem
    {s : List Char} {c : Char} (h : Printable s) (hc : c.toNat < 0x20) :
    c ∉ s :=
  fun hm => absurd (h c hm) (by omega)

theorem printable_replicate {c : Char} (h : 0x20 ≤ c.toNat) (n : Nat) :
    Printable (List.replicate n c) := by
  intro d hd
  rw [List.eq_of_mem_replicate hd]
  exact h

theorem isDigit_of_mem_toDigits {n : Nat} {c : Char}
    (h : c ∈ Nat.toDigits 10 n) : isDigit c = true := by
  have := Nat.isDigit_of_mem_toDigits (by decide) (by decide) h
  simpa [isDigit, Char.isDigit, Char.le_def] using this

theorem printable_of_digits {s : List Char}
    (h : ∀ c ∈ s, isDigit c = true) : Printable s := by
  intro c hc
  have := h c hc
  simp only [isDigit, Bool.and_eq_true, decide_eq_true_eq] at this
  exact Nat.le_trans (by decide) this.1

theorem printable_toDigits (n : Nat) : Printable (Nat.toDigits 10 n) :=
  printable_of_digits fun _ => isDigit_of_mem_toDigits

theorem printable_toString_nat (n : Nat) : Printable (toString n).toList := by
  have : (toString n).toList = Nat.toDigits 10 n := Nat.toList_repr
  rw [this]
  exact printable_toDigits n

theorem printable_toString_int (n : Int) : Printable (toString n).toList := by
  cases n with
  | ofNat m => exact printable_toString_nat m
  | negSucc m =>
      have : toString (Int.negSucc m) = "-" ++ Nat.repr (m + 1) := rfl
      rw [this, String.toList_append, Nat.toList_repr, printable_append]
      exact ⟨by simp [Printable], printable_toDigits (m + 1)⟩

end Text

end Reclaim
