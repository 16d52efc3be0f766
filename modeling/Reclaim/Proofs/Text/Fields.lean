import Reclaim.Text.Split

/-!
# Fields of joined lines

A line that has been joined from fields is split into the same fields, as long
as the separator stands in none of those that the split looks into.  A bounded
split does not look into the last field it gives, one from the end not into the
first.

Main results: `fields_join`, `fieldsAtMost_join`, `fieldsAtMost_join_of_le` and
`fieldsAtMostFromEnd_join`.
-/

namespace Reclaim
namespace Text

variable {sep : Char}

theorem toList_join_singleton (sep : Char) (f : String) :
    (join sep [f]).toList = f.toList := by
  simp [join, List.intercalate]

/-- The first field stands before the first separator of a line. -/
theorem toList_join_cons
    (sep : Char) (f : String) {fs : List String} (h : fs ≠ []) :
    (join sep (f :: fs)).toList = f.toList ++ sep :: (join sep fs).toList := by
  cases fs with
  | nil => exact absurd rfl h
  | cons g fs => simp [join, List.intercalate]

/-- The fields at the end of a line may be joined beforehand. -/
theorem join_append_join
    (sep : Char) (fs : List String) {gs : List String} (h : gs ≠ []) :
    join sep (fs ++ [join sep gs]) = join sep (fs ++ gs) := by
  induction fs with
  | nil =>
      rw [← String.toList_inj]
      exact toList_join_singleton sep _
  | cons f fs ih =>
      rw [← String.toList_inj, List.cons_append, List.cons_append,
        toList_join_cons sep f (by simp), toList_join_cons sep f (by simp [h]),
        ih]

/-- So may the fields at its start. -/
theorem join_join_cons
    (sep : Char) (f rest : String) {fs : List String} (h : fs ≠ []) :
    join sep (join sep [f, rest] :: fs) = join sep (f :: rest :: fs) := by
  rw [← String.toList_inj, toList_join_cons sep _ h,
    toList_join_cons sep f (by simp), toList_join_cons sep f (by simp),
    toList_join_cons sep rest h, toList_join_singleton, List.append_assoc,
    List.cons_append]

/-- A line is split into the fields it has been joined from. -/
theorem fields_join
    (sep : Char) (fs : List String) (hne : fs ≠ []) (h : ∀ f ∈ fs, sep ∉ f.toList) :
    fields sep (join sep fs) = fs := by
  induction fs with
  | nil => exact absurd rfl hne
  | cons f fs ih =>
      have hf : sep ∉ f.toList := h f (by simp)
      by_cases hfs : fs = []
      · subst hfs
        rw [fields, toList_join_singleton, pieces_of_not_mem hf]
        simp
      · have := ih hfs fun g hg => h g (by simp [hg])
        rw [fields] at this
        rw [fields, toList_join_cons sep f hfs, pieces_append _ hf,
          List.map_cons, this, String.ofList_toList]

theorem piecesAtMost_append
    {p : List Char} (n : Nat) (r : List Char) (h : sep ∉ p) :
    piecesAtMost sep (n + 2) (p ++ sep :: r) =
      p :: piecesAtMost sep (n + 1) r := by
  simp only [piecesAtMost, cut?_append r h]

theorem piecesAtMost_of_not_mem
    {s : List Char} (n : Nat) (h : sep ∉ s) :
    piecesAtMost sep (n + 1) s = [s] := by
  cases n with
  | zero => rfl
  | succ n => simp only [piecesAtMost, cut?_eq_none_iff.2 h]

/-- A bounded split does not look into the last field. -/
theorem fieldsAtMost_join
    (sep : Char) (fs : List String) (last : String)
    (h : ∀ f ∈ fs, sep ∉ f.toList) :
    fieldsAtMost sep (fs.length + 1) (join sep (fs ++ [last])) =
      fs ++ [last] := by
  induction fs with
  | nil =>
      rw [fieldsAtMost, List.nil_append, toList_join_singleton]
      simp [piecesAtMost]
  | cons f fs ih =>
      have := ih fun g hg => h g (by simp [hg])
      rw [fieldsAtMost] at this
      rw [List.cons_append, fieldsAtMost, toList_join_cons sep f (by simp),
        List.length_cons, piecesAtMost_append _ _ (h f (by simp)),
        List.map_cons, this, String.ofList_toList]

/-- A line with no more fields than a bound is split into all of them. -/
theorem fieldsAtMost_join_of_le
    (sep : Char) (n : Nat) (fs : List String) (hne : fs ≠ [])
    (hn : fs.length ≤ n) (h : ∀ f ∈ fs, sep ∉ f.toList) :
    fieldsAtMost sep n (join sep fs) = fs := by
  induction fs generalizing n with
  | nil => exact absurd rfl hne
  | cons f fs ih =>
      have hf : sep ∉ f.toList := h f (by simp)
      obtain _ | n := n
      · simp at hn
      by_cases hfs : fs = []
      · subst hfs
        rw [fieldsAtMost, toList_join_singleton, piecesAtMost_of_not_mem n hf]
        simp
      · have hlen := List.length_pos_iff.2 hfs
        rw [List.length_cons] at hn
        obtain _ | n := n
        · omega
        have := ih (n + 1) hfs (by omega) fun g hg => h g (by simp [hg])
        rw [fieldsAtMost] at this
        rw [fieldsAtMost, toList_join_cons sep f hfs,
          piecesAtMost_append n _ hf, List.map_cons, this,
          String.ofList_toList]

theorem intercalate_concat
    {ps : List (List Char)} (p : List Char) (h : ps ≠ []) :
    [sep].intercalate (ps ++ [p]) = [sep].intercalate ps ++ sep :: p := by
  induction ps with
  | nil => exact absurd rfl h
  | cons q ps ih =>
      by_cases hps : ps = []
      · subst hps
        simp [List.intercalate]
      · rw [List.cons_append, List.intercalate_cons_of_ne_nil (by simp),
          List.intercalate_cons_of_ne_nil hps, ih hps]
        simp

theorem reverse_intercalate (ps : List (List Char)) :
    ([sep].intercalate ps).reverse =
      [sep].intercalate (ps.reverse.map List.reverse) := by
  induction ps with
  | nil => rfl
  | cons p ps ih =>
      by_cases hps : ps = []
      · subst hps
        simp [List.intercalate]
      · rw [List.intercalate_cons_of_ne_nil hps, List.reverse_cons,
          List.map_append, List.map_singleton,
          intercalate_concat _ (by simpa using hps), ← ih]
        simp

/-- A bounded split from the end does not look into the first field. -/
theorem fieldsAtMostFromEnd_join
    (sep : Char) (first : String) (fs : List String)
    (h : ∀ f ∈ fs, sep ∉ f.toList) :
    fieldsAtMostFromEnd sep (fs.length + 1) (join sep (first :: fs)) =
      first :: fs := by
  have reversed : ((join sep (first :: fs)).toList).reverse =
      (join sep ((fs.reverse.map fun f => String.ofList f.toList.reverse) ++
        [String.ofList first.toList.reverse])).toList := by
    simp only [join, String.toList_ofList, reverse_intercalate]
    simp [Function.comp_def]
  have split := fieldsAtMost_join sep
    (fs.reverse.map fun f => String.ofList f.toList.reverse)
    (String.ofList first.toList.reverse) (by simpa using h)
  have back := congrArg
    (List.map fun f : String => String.ofList f.toList.reverse) split
  simp only [fieldsAtMost, List.length_map, List.length_reverse,
    ← reversed] at back
  rw [fieldsAtMostFromEnd, piecesAtMostFromEnd, List.map_reverse,
    List.map_map]
  rw [List.map_map] at back
  simp only [Function.comp_def, String.toList_ofList] at back ⊢
  rw [back]
  simp [Function.comp_def]

end Text
end Reclaim
