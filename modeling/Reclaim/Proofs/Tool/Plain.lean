import Mathlib.Data.List.Basic
import Reclaim.Proofs.Tool.Outcome

/-!
# Lines that are read as they were written

A line that contains no newline and does not end in a carriage return is plain:
written with a newline behind it, it is read back as it was.  So the rows that
are read of plain lines are told from the lines alone.

Main result: `rowsIn_bytesOf`.
-/

namespace Reclaim

namespace Text

/-- The line contains no newline and does not end in a carriage return. -/
structure Plain (s : String) : Prop where
  oneLine : OneLine s
  noReturn : s.toList.getLast? ≠ some '\r'

instance (s : String) : Decidable (Plain s) :=
  decidable_of_iff (OneLine s ∧ s.toList.getLast? ≠ some '\r')
    ⟨fun h => ⟨h.1, h.2⟩, fun h => ⟨h.1, h.2⟩⟩

/-- A last byte below 128 is that of the last character. -/
theorem Utf8.getLast?_of_getLast?_encode
    {b : UInt8} {s : List Char} (low : b.toNat < 0x80)
    (h : (encode s).getLast? = some b) :
    s.getLast? = some (Char.ofNat b.toNat) := by
  rcases List.eq_nil_or_concat s with rfl | ⟨before, c, rfl⟩
  · cases h
  · rw [List.concat_eq_append] at h ⊢
    have some_byte : (encodeChar c).getLast?.isSome := by
      rw [List.getLast?_isSome]
      simp only [encodeChar]
      split
      · exact List.cons_ne_nil _ _
      · split
        · exact List.cons_ne_nil _ _
        · split <;> exact List.cons_ne_nil _ _
    obtain ⟨b', hb'⟩ := Option.isSome_iff_exists.1 some_byte
    rw [encode, List.flatMap_append, List.flatMap_singleton,
      List.getLast?_append, hb'] at h
    obtain rfl : b' = b := Option.some.inj h
    rw [List.getLast?_concat,
      ← eq_of_mem_encodeChar low (List.mem_of_getLast? hb'), Char.ofNat_toNat]

theorem getLast?_append_cons (xs : List Char) (y : Char) (ys : List Char) :
    (xs ++ y :: ys).getLast? = (y :: ys).getLast? := by
  rw [List.getLast?_append, List.getLast?_cons]
  rfl

end Text

namespace Tool

/-- Lines as bytes, with a newline behind each. -/
def bytesOf (lines : List String) : List UInt8 :=
  Text.Utf8.encode (outputText lines).toList

theorem frames_bytesOf
    {lines : List String} (plain : ∀ l ∈ lines, Text.OneLine l) :
    frames (bytesOf lines) = lines.map fun l => Text.Utf8.encode l.toList :=
  frames_outputText plain

/-- A plain line is the text of its bytes. -/
theorem textOf?_encode {l : String} (plain : Text.Plain l) :
    textOf? (Text.Utf8.encode l.toList) = some l := by
  have whole : withoutReturn (Text.Utf8.encode l.toList) =
      Text.Utf8.encode l.toList := by
    rw [withoutReturn, if_neg]
    intro h
    exact plain.noReturn (Text.Utf8.getLast?_of_getLast?_encode (by decide) h)
  rw [textOf?, whole, Text.Utf8.decode_encode]
  exact congrArg some String.ofList_toList

section Rows

variable {ρ : Type} {parse : String → Except Defect ρ}

/-- The row that a line writes; an empty line writes none. -/
def rowOfLine? (parse : String → Except Defect ρ) (l : String) : Option ρ :=
  if l.isEmpty then none else (parse l).toOption

/-- The row that a line writes is read from the line. -/
theorem parse_of_rowOfLine?
    {l : String} {r : ρ} (h : rowOfLine? parse l = some r) :
    parse l = .ok r := by
  unfold rowOfLine? at h
  split at h
  · cases h
  · cases hparse : parse l with
    | error d =>
        rw [hparse] at h
        cases h
    | ok x =>
        rw [hparse] at h
        rw [Option.some.inj h]

/-- The rows that plain lines write are read back. -/
theorem rowsIn_bytesOf
    {lines : List String} (plain : ∀ l ∈ lines, Text.Plain l) :
    rowsIn parse (bytesOf lines) = lines.filterMap (rowOfLine? parse) := by
  rw [rowsIn, frames_bytesOf fun l hl => (plain l hl).oneLine,
    List.filterMap_map]
  refine List.filterMap_congr fun l hl => ?_
  simp only [Function.comp_apply, rowOf?, textOf?_encode (plain l hl),
    rowOfLine?]

end Rows

end Tool
end Reclaim
