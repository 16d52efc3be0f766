/-!
# Splitting a text at a separator

Wire rows are lines of fields between separators.  A text is cut at its first
separator (`cut?`), at its last one (`cutLast?`), at every separator
(`pieces`), or into a bounded number of pieces counted from either end
(`piecesAtMost`, `piecesAtMostFromEnd`), where the piece that reaches the bound
keeps its separators.

Main results:

* `cut?_eq_some_iff` says where a text is cut,
* `intercalate_pieces` and `intercalate_piecesAtMost` say that nothing is lost.
-/

namespace Reclaim
namespace Text

/-- The text before the first separator and the text after it. -/
def cut? (sep : Char) : List Char → Option (List Char × List Char)
  | [] => none
  | c :: r =>
      if c = sep then
        some ([], r)
      else
        (cut? sep r).map fun (before, after) => (c :: before, after)

/-- The text before the last separator and the text after it. -/
def cutLast? (sep : Char) (s : List Char) :
    Option (List Char × List Char) :=
  (cut? sep s.reverse).map fun (after, before) =>
    (before.reverse, after.reverse)

/-- The pieces between the separators; a text without separator is one piece. -/
def pieces (sep : Char) : List Char → List (List Char)
  | [] => [[]]
  | c :: r =>
      if c = sep then
        [] :: pieces sep r
      else
        match pieces sep r with
        | [] => [[c]]
        | p :: ps => (c :: p) :: ps

/-- At most `n` pieces; the last of `n` pieces keeps its separators. -/
def piecesAtMost (sep : Char) : Nat → List Char → List (List Char)
  | 0, _ => []
  | 1, s => [s]
  | n + 2, s =>
      match cut? sep s with
      | none => [s]
      | some (before, after) =>
          before :: piecesAtMost sep (n + 1) after

/-- At most `n` pieces, cut off from the end; the first of `n` pieces keeps its separators. -/
def piecesAtMostFromEnd (sep : Char) (n : Nat) (s : List Char) :
    List (List Char) :=
  ((piecesAtMost sep n s.reverse).map List.reverse).reverse

/-- A text starts with another. -/
def startsWith (start s : String) : Bool :=
  start.toList.isPrefixOf s.toList

/-- The text without the separators at its start. -/
def trimStart (sep : Char) (s : List Char) : List Char :=
  s.dropWhile (· == sep)

/-- The text without the separators at its end. -/
def trimEnd (sep : Char) (s : List Char) : List Char :=
  (s.reverse.dropWhile (· == sep)).reverse

theorem cut?_eq_some
    {sep : Char} {s before after : List Char}
    (h : cut? sep s = some (before, after)) :
    s = before ++ sep :: after ∧ sep ∉ before := by
  induction s generalizing before with
  | nil => simp [cut?] at h
  | cons c r ih =>
      by_cases hc : c = sep
      · simp [cut?, hc] at h
        obtain ⟨rfl, rfl⟩ := h
        simp [hc]
      · simp [cut?, hc] at h
        obtain ⟨b, hb, rfl⟩ := h
        obtain ⟨hr, hn⟩ := ih hb
        refine ⟨by simp [hr], ?_⟩
        simp [hn, Ne.symm hc]

theorem cut?_append
    {sep : Char} {before : List Char} (after : List Char)
    (h : sep ∉ before) :
    cut? sep (before ++ sep :: after) = some (before, after) := by
  induction before with
  | nil => simp [cut?]
  | cons c b ih =>
      simp only [List.mem_cons, not_or] at h
      simp [cut?, Ne.symm h.1, ih h.2]

/-- A text is cut at the first separator and nowhere else. -/
theorem cut?_eq_some_iff
    {sep : Char} {s before after : List Char} :
    cut? sep s = some (before, after) ↔
      s = before ++ sep :: after ∧ sep ∉ before :=
  ⟨cut?_eq_some, fun ⟨hs, hn⟩ => hs ▸ cut?_append after hn⟩

theorem cut?_eq_none_iff
    {sep : Char} {s : List Char} :
    cut? sep s = none ↔ sep ∉ s := by
  induction s with
  | nil => simp [cut?]
  | cons c r ih =>
      by_cases hc : c = sep
      · simp [cut?, hc]
      · simp [cut?, hc, ih, Ne.symm hc]

theorem pieces_ne_nil (sep : Char) (s : List Char) :
    pieces sep s ≠ [] := by
  cases s with
  | nil => simp [pieces]
  | cons c r =>
      simp only [pieces]
      split
      · simp
      · split <;> simp

theorem pieces_of_not_mem
    {sep : Char} {s : List Char} (h : sep ∉ s) :
    pieces sep s = [s] := by
  induction s with
  | nil => rfl
  | cons c r ih =>
      simp only [List.mem_cons, not_or] at h
      simp [pieces, Ne.symm h.1, ih h.2]

theorem pieces_append
    {sep : Char} {s : List Char} (r : List Char)
    (h : sep ∉ s) :
    pieces sep (s ++ sep :: r) = s :: pieces sep r := by
  induction s with
  | nil => simp [pieces]
  | cons c s ih =>
      simp only [List.mem_cons, not_or] at h
      simp [pieces, Ne.symm h.1, ih h.2]

/-- Joining the pieces gives the text back. -/
theorem intercalate_pieces (sep : Char) (s : List Char) :
    [sep].intercalate (pieces sep s) = s := by
  induction s with
  | nil => rfl
  | cons c r ih =>
      by_cases hc : c = sep
      · subst hc
        cases hp : pieces c r with
        | nil => exact absurd hp (pieces_ne_nil c r)
        | cons p ps =>
            rw [hp] at ih
            simp [pieces, hp, List.intercalate] at ih ⊢
            exact ih
      · cases hp : pieces sep r with
        | nil => exact absurd hp (pieces_ne_nil sep r)
        | cons p ps =>
            rw [hp] at ih
            cases ps with
            | nil =>
                simp [pieces, hc, hp, List.intercalate, List.intersperse]
                  at ih ⊢
                exact ih
            | cons q qs =>
                simp [pieces, hc, hp, List.intercalate, List.intersperse]
                  at ih ⊢
                exact ih

theorem not_mem_of_mem_pieces
    {sep : Char} {s p : List Char}
    (h : p ∈ pieces sep s) :
    sep ∉ p := by
  induction s generalizing p with
  | nil => simp [pieces] at h; simp [h]
  | cons c r ih =>
      by_cases hc : c = sep
      · simp [pieces, hc] at h
        rcases h with rfl | h
        · simp
        · exact ih h
      · cases hp : pieces sep r with
        | nil => exact absurd hp (pieces_ne_nil sep r)
        | cons q qs =>
            simp [pieces, hc, hp] at h
            rcases h with rfl | h
            · simp [Ne.symm hc, ih (p := q) (by simp [hp])]
            · exact ih (by simp [hp, h])

/-- Joining the pieces of a bounded split gives the text back. -/
theorem intercalate_piecesAtMost (sep : Char) (n : Nat) (s : List Char) :
    [sep].intercalate (piecesAtMost sep (n + 1) s) = s := by
  induction n generalizing s with
  | zero => simp [piecesAtMost, List.intercalate]
  | succ n ih =>
      cases hc : cut? sep s with
      | none => simp [piecesAtMost, hc, List.intercalate]
      | some c =>
          obtain ⟨before, after⟩ := c
          have hs := (cut?_eq_some hc).1
          have ha := ih after
          simp only [piecesAtMost, hc]
          cases hp : piecesAtMost sep (n + 1) after with
          | nil =>
              cases n with
              | zero => simp [piecesAtMost] at hp
              | succ n =>
                  simp only [piecesAtMost] at hp
                  split at hp <;> simp at hp
          | cons p ps =>
              rw [hp] at ha
              rw [hs, ← ha]
              simp [List.intercalate, List.intersperse]

/-- The fields with a separator between each two. -/
def join (sep : Char) (fields : List String) : String :=
  String.ofList ([sep].intercalate (fields.map String.toList))

/-- The pieces of a text as texts. -/
def fields (sep : Char) (s : String) : List String :=
  (pieces sep s.toList).map String.ofList

/-- At most `n` pieces of a text as texts. -/
def fieldsAtMost (sep : Char) (n : Nat) (s : String) : List String :=
  (piecesAtMost sep n s.toList).map String.ofList

/-- At most `n` pieces of a text, cut off from the end, as texts. -/
def fieldsAtMostFromEnd (sep : Char) (n : Nat) (s : String) : List String :=
  (piecesAtMostFromEnd sep n s.toList).map String.ofList

/-- The fields of a text join to the text. -/
theorem join_fields (sep : Char) (s : String) :
    join sep (fields sep s) = s := by
  have h : ((pieces sep s.toList).map String.ofList).map String.toList =
      pieces sep s.toList := by
    simp [List.map_map, Function.comp_def]
  rw [join, fields, h, intercalate_pieces, String.ofList_toList]

end Text
end Reclaim
