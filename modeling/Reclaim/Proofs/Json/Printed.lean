import Reclaim.Json.Printer
import Reclaim.Proofs.Text.Printable

/-!
# Printed values are on one line

What is printed of a value contains no control character: in strings they are
escaped, and everything else is punctuation, words and digits.

Main result: `printable_printValue`.
-/

namespace Reclaim

namespace Decimal
namespace Layout

open Text

theorem printable_dropEndZeros {s : List Char} (h : Printable s) :
    Printable (dropEndZeros s) := by
  intro c hc
  rw [dropEndZeros, List.mem_reverse] at hc
  exact h c (List.mem_reverse.1 ((List.dropWhile_sublist _).mem hc))

theorem printable_positional
    {digits : List Char} (h : Printable digits) (point : Int) :
    Printable (positional digits point) := by
  have zeros := printable_replicate (c := '0') (by decide)
  simp only [positional]
  split
  · simp only [printable_cons, printable_append]
    exact ⟨by decide, by decide, zeros _, h⟩
  · have whole : Printable
        (digits ++ List.replicate (point.toNat - digits.length) '0') :=
      printable_append.2 ⟨h, zeros _⟩
    rw [printable_append, printable_cons]
    refine ⟨whole.mono (List.take_subset _ _), by decide, ?_⟩
    split
    · simp [Printable]
    · exact whole.mono (List.drop_subset _ _)

theorem printable_scientific
    {l : Layout} {digits : List Char} (plus : Printable l.plus.toList)
    (h : Printable digits) (exponent : Int) :
    Printable (l.scientific digits exponent) := by
  simp only [scientific, printable_append, printable_cons,
    String.toList_append]
  refine ⟨⟨h.mono (List.take_subset _ _), ?_⟩, by decide, ?_,
    printable_toString_int exponent⟩
  · split
    · exact printable_nil
    · exact printable_cons.2 ⟨by decide, h.mono (List.drop_subset _ _)⟩
  · split
    · simp [Printable]
    · exact plus

theorem printable_render
    {l : Layout} (plus : Printable l.plus.toList) (x : Binary64) :
    Printable (l.render x) := by
  have unsigned : Printable
      (if x.magnitude.mantissa = 0 then ['0', '.', '0']
      else
        let d := shortest x.magnitude
        let all := Nat.toDigits 10 d.digits
        let point : Int := all.length + d.exponent
        let digits := dropEndZeros all
        if l.least ≤ point - 1 ∧ point - 1 ≤ l.greatest then
          positional digits point
        else
          l.scientific digits (point - 1)) := by
    have digits := printable_dropEndZeros
      (printable_toDigits (shortest x.magnitude).digits)
    split
    · simp [Printable]
    · dsimp only
      split
      · exact printable_positional digits _
      · exact printable_scientific plus digits _
  rw [render]
  split
  · exact printable_cons.2 ⟨by decide, unsigned⟩
  · exact unsigned

end Layout
end Decimal

namespace Json

open Text

theorem printable_printNumber (n : Number) : Printable (printNumber n) := by
  cases n with
  | integer n => exact printable_toString_int n
  | float x =>
      exact Decimal.Layout.printable_render (by simp [Printable, numberLayout])
        x

theorem printable_hexDigit {n : Nat} (h : n < 16) :
    0x20 ≤ (hexDigit n).toNat := by
  have all : ∀ k : Fin 16, 0x20 ≤ (hexDigit k).toNat := by decide
  exact all ⟨n, h⟩

theorem printable_escapeChar (c : Char) : Printable (escapeChar c) := by
  unfold escapeChar
  repeat' split
  · simp [Printable]
  · simp [Printable]
  · simp [Printable]
  · simp [Printable]
  · simp [Printable]
  · simp [Printable]
  · simp [Printable]
  · next h =>
      have high := printable_hexDigit (n := c.toNat / 16) (by omega)
      have low := printable_hexDigit (n := c.toNat % 16) (by omega)
      simp [Printable, high, low]
  · next h =>
      simp only [Printable, List.mem_singleton, forall_eq]
      omega

theorem printable_printString (s : String) : Printable (printString s) := by
  simp only [printString, printable_cons, printable_append, List.cons_append]
  refine ⟨by decide, ?_, by decide, printable_nil⟩
  intro c hc
  obtain ⟨d, -, hd⟩ := List.mem_flatMap.1 hc
  exact printable_escapeChar d c hd

mutual

/-- What is printed of a value contains no control characters. -/
theorem printable_printValue : ∀ v : Value, Printable (printValue v)
  | .null => by simp [printValue, Printable]
  | .bool true => by simp [printValue, Printable]
  | .bool false => by simp [printValue, Printable]
  | .number n => printable_printNumber n
  | .string s => printable_printString s
  | .array xs => printable_cons.2 ⟨by decide, printable_printItems xs⟩
  | .object ms => printable_cons.2 ⟨by decide, printable_printMembers ms⟩

theorem printable_printItems : ∀ xs : List Value, Printable (printItems xs)
  | [] => by simp [printItems, Printable]
  | x :: xs =>
      printable_append.2
        ⟨printable_printValue x, printable_printFurtherItems xs⟩

theorem printable_printFurtherItems :
    ∀ xs : List Value, Printable (printFurtherItems xs)
  | [] => by simp [printFurtherItems, Printable]
  | x :: xs =>
      printable_cons.2 ⟨by decide, printable_append.2
        ⟨printable_printValue x, printable_printFurtherItems xs⟩⟩

theorem printable_printMembers :
    ∀ ms : List (String × Value), Printable (printMembers ms)
  | [] => by simp [printMembers, Printable]
  | (n, v) :: ms =>
      printable_append.2 ⟨printable_printString n,
        printable_cons.2 ⟨by decide, printable_append.2
          ⟨printable_printValue v, printable_printFurtherMembers ms⟩⟩⟩

theorem printable_printFurtherMembers :
    ∀ ms : List (String × Value), Printable (printFurtherMembers ms)
  | [] => by simp [printFurtherMembers, Printable]
  | (n, v) :: ms =>
      printable_cons.2 ⟨by decide, printable_append.2
        ⟨printable_printString n, printable_cons.2
          ⟨by decide, printable_append.2
            ⟨printable_printValue v, printable_printFurtherMembers ms⟩⟩⟩⟩

end

theorem printable_text (v : Value) : Printable v.text.toList := by
  rw [Value.text, String.toList_ofList]
  exact printable_printValue v

end Json
end Reclaim
