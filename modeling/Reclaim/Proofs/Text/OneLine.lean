import Reclaim.Proofs.Text.Fields
import Reclaim.Proofs.Text.Printable
import Reclaim.Text.Blank

/-!
# Texts on one line

A text without newlines stays on one line when it is written.  Joining texts
adds separators only, and splitting a text gives parts of it.

Main results: `oneLine_join`, and `subset_of_mem_fields` with its variants for
bounded splits.
-/

namespace Reclaim
namespace Text

/-- The character that ends a line. -/
abbrev newline : Char := '\n'

/-- The text contains no newline. -/
def OneLine (s : String) : Prop :=
  newline ∉ s.toList

instance (s : String) : Decidable (OneLine s) :=
  inferInstanceAs (Decidable (_ ∉ _))

theorem oneLine_empty : OneLine "" := by
  simp [OneLine]

theorem Printable.oneLine {s : String} (h : Printable s.toList) : OneLine s :=
  h.not_mem (by decide)

theorem OneLine.of_subset
    {s t : String} (h : OneLine t) (sub : s.toList ⊆ t.toList) : OneLine s :=
  fun hm => h (sub hm)

section Join

variable {sep c : Char}

/-- A character of a joined text is the separator or stands in one of the fields. -/
theorem mem_join
    {fs : List String} (h : c ∈ (join sep fs).toList) :
    c = sep ∨ ∃ f ∈ fs, c ∈ f.toList := by
  induction fs with
  | nil => simp [join, List.intercalate] at h
  | cons f fs ih =>
      by_cases hfs : fs = []
      · subst hfs
        rw [toList_join_singleton] at h
        exact .inr ⟨f, List.mem_cons_self, h⟩
      · rw [toList_join_cons sep f hfs, List.mem_append, List.mem_cons] at h
        rcases h with h | h | h
        · exact .inr ⟨f, List.mem_cons_self, h⟩
        · exact .inl h
        · rcases ih h with h | ⟨g, hg, h⟩
          · exact .inl h
          · exact .inr ⟨g, List.mem_cons_of_mem f hg, h⟩

/-- Texts on one line are joined to one line. -/
theorem oneLine_join
    {fs : List String} (hsep : newline ≠ sep) (h : ∀ f ∈ fs, OneLine f) :
    OneLine (join sep fs) := by
  intro hm
  rcases mem_join hm with heq | ⟨f, hf, hm⟩
  · exact hsep heq
  · exact h f hf hm

end Join

section Split

variable {sep : Char}

theorem subset_intercalate
    {ps : List (List Char)} {p : List Char} (h : p ∈ ps) :
    p ⊆ [sep].intercalate ps := by
  induction ps with
  | nil => cases h
  | cons q ps ih =>
      cases ps with
      | nil =>
          obtain rfl := List.mem_singleton.1 h
          simp [List.intercalate]
      | cons r ps =>
          have step : [sep].intercalate (q :: r :: ps) =
              q ++ sep :: [sep].intercalate (r :: ps) := by
            simp [List.intercalate]
          rw [step]
          rcases List.mem_cons.1 h with rfl | h
          · exact List.subset_append_left _ _
          · refine List.Subset.trans (ih h) ?_
            exact List.subset_append_of_subset_right _
              (List.subset_cons_self _ _)

theorem subset_of_cutLast?
    {s before after : List Char} (h : cutLast? sep s = some (before, after)) :
    before ⊆ s := by
  obtain ⟨⟨last, first⟩, hcut, heq⟩ := Option.map_eq_some_iff.1 h
  obtain ⟨rfl, rfl⟩ := Prod.mk.inj heq
  intro c hc
  rw [← List.mem_reverse, (cut?_eq_some hcut).1]
  simpa using .inr (.inr (List.mem_reverse.1 hc))

theorem subset_of_mem_pieces
    {s p : List Char} (h : p ∈ pieces sep s) : p ⊆ s := by
  rw [← intercalate_pieces sep s]
  exact subset_intercalate h

theorem subset_of_mem_piecesAtMost
    {n : Nat} {s p : List Char} (h : p ∈ piecesAtMost sep n s) : p ⊆ s := by
  cases n with
  | zero => cases h
  | succ n =>
      rw [← intercalate_piecesAtMost sep n s]
      exact subset_intercalate h

theorem subset_of_mem_fields
    {s f : String} (h : f ∈ fields sep s) : f.toList ⊆ s.toList := by
  obtain ⟨p, hp, rfl⟩ := List.mem_map.1 h
  rw [String.toList_ofList]
  exact subset_of_mem_pieces hp

theorem subset_of_mem_fieldsAtMost
    {n : Nat} {s f : String} (h : f ∈ fieldsAtMost sep n s) :
    f.toList ⊆ s.toList := by
  obtain ⟨p, hp, rfl⟩ := List.mem_map.1 h
  rw [String.toList_ofList]
  exact subset_of_mem_piecesAtMost hp

theorem subset_of_mem_fieldsAtMostFromEnd
    {n : Nat} {s f : String} (h : f ∈ fieldsAtMostFromEnd sep n s) :
    f.toList ⊆ s.toList := by
  obtain ⟨p, hp, rfl⟩ := List.mem_map.1 h
  rw [String.toList_ofList]
  obtain ⟨q, hq, rfl⟩ := List.mem_map.1 (List.mem_reverse.1 hp)
  intro c hc
  exact List.mem_reverse.1
    (subset_of_mem_piecesAtMost hq (List.mem_reverse.1 hc))

theorem trimBlanks_subset (s : List Char) : trimBlanks s ⊆ s := by
  intro c hc
  have kept := (List.dropWhile_sublist isBlank).subset (List.mem_reverse.1 hc)
  exact (List.dropWhile_sublist isBlank).subset (List.mem_reverse.1 kept)

end Split

end Text
end Reclaim
