/-!
# Blank characters

The characters with the Unicode property `White_Space`, and texts without the
blanks at their ends.

Main result: `trimBlanks_eq_self` says which texts trimming leaves alone.
-/

namespace Reclaim
namespace Text

/-- Ranges of code points with the property `White_Space`. -/
def blankRanges : List (Nat × Nat) :=
  [(0x09, 0x0D), (0x20, 0x20), (0x85, 0x85), (0xA0, 0xA0), (0x1680, 0x1680),
    (0x2000, 0x200A), (0x2028, 0x2029), (0x202F, 0x202F), (0x205F, 0x205F),
    (0x3000, 0x3000)]

/-- A character with the property `White_Space`. -/
def isBlank (c : Char) : Bool :=
  blankRanges.any fun (low, high) => low ≤ c.toNat && c.toNat ≤ high

/-- The characters without the blanks at either end. -/
def trimBlanks (s : List Char) : List Char :=
  ((s.dropWhile isBlank).reverse.dropWhile isBlank).reverse

/-- A text without the blanks at either end. -/
def trim (s : String) : String :=
  String.ofList (trimBlanks s.toList)

theorem dropWhile_eq_self_of_head
    {p : Char → Bool} {s : List Char}
    (h : ∀ c ∈ s.head?, p c = false) :
    s.dropWhile p = s := by
  cases s with
  | nil => rfl
  | cons c r => simp [List.dropWhile, h c (by simp)]

/-- A text whose two ends are not blank is left alone. -/
theorem trimBlanks_eq_self
    {s : List Char}
    (first : ∀ c ∈ s.head?, isBlank c = false)
    (last : ∀ c ∈ s.getLast?, isBlank c = false) :
    trimBlanks s = s := by
  rw [trimBlanks, dropWhile_eq_self_of_head first,
    dropWhile_eq_self_of_head (s := s.reverse) (by simpa using last),
    List.reverse_reverse]

/-- Trimming keeps a first character that is not blank. -/
theorem exists_trimBlanks_cons
    {c : Char} (h : isBlank c = false) (s : List Char) :
    ∃ r, trimBlanks (c :: s) = c :: r := by
  rw [trimBlanks, List.dropWhile_cons_of_neg (by simp [h]), List.reverse_cons,
    List.dropWhile_append]
  split
  · exact ⟨[], by simp [h]⟩
  · exact ⟨(s.reverse.dropWhile isBlank).reverse, by simp⟩

end Text
end Reclaim
