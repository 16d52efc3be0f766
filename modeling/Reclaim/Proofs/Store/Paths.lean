import Mathlib.Data.List.TakeWhile
import Mathlib.Data.String.Basic
import Reclaim.Proofs.Sorted.Map
import Reclaim.Proofs.Text.Order
import Reclaim.Store.Entries

/-!
# What lies below a path

Texts that start alike stand together in the order of their bytes, and so they
follow each other in a sorted map.  The first entry from the start of a directory
on tells for this reason whether any entry lies below the directory.

Main results: `exists_isFirstFrom_iff` for the first of the paths from a text on,
`hasChildren_iff` for the entries below a path, and `isUploadPath_iff` for the
shape of the paths of uploads.
-/

namespace Reclaim
namespace Store

open Text

section Below

/-- A path goes on behind the path of a directory and a slash. -/
def IsBelow (path directory : String) : Prop :=
  Text.startsWith (childrenStart directory) path = true

instance (path directory : String) : Decidable (IsBelow path directory) :=
  inferInstanceAs (Decidable (_ = true))

theorem startsWith_iff {start path : String} :
    Text.startsWith start path = true ↔ start.toList <+: path.toList :=
  List.isPrefixOf_iff_prefix

theorem isBelow_iff {path directory : String} :
    IsBelow path directory ↔
      (childrenStart directory).toList <+: path.toList :=
  startsWith_iff

/-- What lies between a text and one that goes on behind it goes on behind it too. -/
theorem isPrefix_of_between
    {start middle rest : List Char}
    (hstart : ¬ middle < start) (hrest : ¬ start ++ rest < middle) :
    start <+: middle := by
  induction start generalizing middle with
  | nil => exact List.nil_prefix
  | cons c cs ih =>
      cases middle with
      | nil => exact absurd (List.nil_lt_cons c cs) hstart
      | cons d ds =>
          rw [List.cons_lt_cons_iff, not_or, not_lt] at hstart
          rw [List.cons_append, List.cons_lt_cons_iff, not_or, not_lt] at hrest
          obtain rfl := le_antisymm hstart.1 hrest.1
          apply List.cons_prefix_cons.2 ⟨rfl, ih ?_ ?_⟩
          · exact fun h => hstart.2 ⟨rfl, h⟩
          · exact fun h => hrest.2 ⟨rfl, h⟩

theorem not_lt_of_isPrefix {start s : List Char} (h : start <+: s) :
    ¬ s < start := by
  obtain ⟨rest, rfl⟩ := h
  induction start with
  | nil => exact List.not_lt_nil _
  | cons c cs ih =>
      rw [List.cons_append, List.cons_lt_cons_iff]
      rintro (h | ⟨_, h⟩)
      · exact lt_irrefl c h
      · exact ih h

/-- The first of the paths, in the order of their bytes, that is not before a text. -/
structure IsFirstFrom (paths : List String) (start found : String) : Prop where
  mem : found ∈ paths
  notBefore : ¬ BytesBefore found start
  first : ∀ path ∈ paths, ¬ BytesBefore path start →
    path = found ∨ BytesBefore found path

section Scan

variable {β : Type} {m : Sorted.SortedMap String β} {start middle found path : String}

theorem bytesBefore_iff_lt : BytesBefore path found ↔ path.toList < found.toList := by
  rw [bytesBefore_iff, compare_lt_iff_lt, String.lt_iff_toList_lt]

/-- Texts that start alike stand together in the order of their bytes. -/
theorem isPrefix_of_not_bytesBefore (hstart : ¬ BytesBefore middle start)
    (hpath : ¬ BytesBefore path middle) (hstarts : start.toList <+: path.toList) :
    start.toList <+: middle.toList := by
  obtain ⟨rest, hrest⟩ := hstarts
  rw [bytesBefore_iff_lt] at hstart hpath
  rw [← hrest] at hpath
  exact isPrefix_of_between hstart hpath

theorem not_bytesBefore_of_isPrefix (hstarts : start.toList <+: path.toList) :
    ¬ BytesBefore path start := by
  rw [bytesBefore_iff_lt]
  exact not_lt_of_isPrefix hstarts

/-- The first path from a text on is what the sorted map finds. -/
theorem isFirstFrom_keys_iff :
    IsFirstFrom m.keys start found ↔ ∃ e, m.firstFrom? start = some (found, e) := by
  simp only [Sorted.SortedMap.firstFrom?_eq_some_iff, ne_eq, ← bytesBefore_iff]
  constructor
  · rintro ⟨hmem, hnot, hfirst⟩
    obtain ⟨⟨found, e⟩, hm, rfl⟩ := List.mem_map.1 hmem
    refine ⟨e, hm, hnot, fun p hp hfrom => ?_⟩
    refine (hfirst p.1 (List.mem_map.2 ⟨p, hp, rfl⟩) hfrom).imp_left fun heq => ?_
    -- There is one entry at each path.
    have hget := Sorted.SortedMap.get?_of_mem hp
    rw [heq, Sorted.SortedMap.get?_of_mem hm, Option.some.injEq] at hget
    exact Prod.ext heq hget.symm
  · rintro ⟨e, hm, hnot, hfirst⟩
    refine ⟨List.mem_map.2 ⟨_, hm, rfl⟩, hnot, fun path hpath hfrom => ?_⟩
    obtain ⟨p, hp, rfl⟩ := List.mem_map.1 hpath
    exact (hfirst p hp hfrom).imp_left (congrArg Prod.fst)

/-- The first path from a text on starts with the text if any path does. -/
theorem exists_isFirstFrom_iff :
    (∃ found, IsFirstFrom m.keys start found ∧ start.toList <+: found.toList) ↔
      ∃ path ∈ m.keys, start.toList <+: path.toList := by
  constructor
  · rintro ⟨found, hfound, hstarts⟩
    exact ⟨found, hfound.mem, hstarts⟩
  · rintro ⟨path, hpath, hstarts⟩
    have hfrom := not_bytesBefore_of_isPrefix hstarts
    obtain ⟨p, hp, rfl⟩ := List.mem_map.1 hpath
    obtain ⟨⟨found, e⟩, he⟩ :=
      Sorted.SortedMap.exists_firstFrom? hp (mt bytesBefore_iff.2 hfrom)
    have hfound := isFirstFrom_keys_iff.2 ⟨e, he⟩
    refine ⟨found, hfound, ?_⟩
    rcases hfound.first p.1 hpath hfrom with heq | hbefore
    · exact heq ▸ hstarts
    · refine isPrefix_of_not_bytesBefore hfound.notBefore ?_ hstarts
      rw [bytesBefore_iff_lt] at hbefore ⊢
      exact hbefore.not_gt

end Scan

variable {s : Services} {directory : String}

/-- The store looks at a single path. -/
theorem hasChildren_iff_isFirstFrom :
    s.hasChildren directory = true ↔
      ∃ found, IsFirstFrom s.entries.keys (childrenStart directory) found ∧
        IsBelow found directory := by
  simp only [isFirstFrom_keys_iff, Services.hasChildren]
  constructor
  · intro h
    split at h
    · next found e hfound => exact ⟨found, ⟨e, hfound⟩, h⟩
    · cases h
  · rintro ⟨found, ⟨e, hfound⟩, hbelow⟩
    rw [hfound]
    exact hbelow

/-- The first entry from the start of a directory on lies below it if any entry does. -/
theorem hasChildren_iff :
    s.hasChildren directory = true ↔ ∃ path ∈ s.entries.keys, IsBelow path directory := by
  simp only [hasChildren_iff_isFirstFrom, isBelow_iff]
  exact exists_isFirstFrom_iff

end Below

section Segments

/-- The second segment of a path, behind the slashes at its start. -/
def HasSecondSegment (segment path : List Char) : Prop :=
  ∃ slashes first tail,
    path = slashes ++ first ++ '/' :: tail ∧
      (∀ c ∈ slashes, c = '/') ∧ first ≠ [] ∧ '/' ∉ first ∧
      '/' ∉ segment ∧ (tail = segment ∨ ∃ rest, tail = segment ++ '/' :: rest)

theorem pieces_head?_eq_some_iff {sep : Char} {s piece : List Char} :
    (pieces sep s).head? = some piece ↔
      sep ∉ piece ∧ (s = piece ∨ ∃ rest, s = piece ++ sep :: rest) := by
  constructor
  · intro h
    cases hcut : cut? sep s with
    | none =>
        have hnot := cut?_eq_none_iff.1 hcut
        rw [pieces_of_not_mem hnot] at h
        cases h
        exact ⟨hnot, .inl rfl⟩
    | some cut =>
        obtain ⟨hs, hnot⟩ := cut?_eq_some hcut
        rw [hs, pieces_append _ hnot] at h
        cases h
        exact ⟨hnot, .inr ⟨_, hs⟩⟩
  · rintro ⟨hnot, rfl | ⟨rest, rfl⟩⟩
    · rw [pieces_of_not_mem hnot]
      rfl
    · rw [pieces_append _ hnot]
      rfl

theorem pieces_second_eq_some_iff {sep : Char} {s piece : List Char} :
    (pieces sep s)[1]? = some piece ↔
      ∃ first tail, s = first ++ sep :: tail ∧ sep ∉ first ∧
        (pieces sep tail).head? = some piece := by
  constructor
  · intro h
    cases hcut : cut? sep s with
    | none =>
        rw [pieces_of_not_mem (cut?_eq_none_iff.1 hcut)] at h
        cases h
    | some cut =>
        obtain ⟨hs, hnot⟩ := cut?_eq_some hcut
        rw [hs, pieces_append _ hnot, List.getElem?_cons_succ,
          ← List.head?_eq_getElem?] at h
        exact ⟨_, _, hs, hnot, h⟩
  · rintro ⟨first, tail, rfl, hnot, h⟩
    rw [pieces_append _ hnot, List.getElem?_cons_succ,
      ← List.head?_eq_getElem?, h]

/-- The paths of uploads are those with the segment of uploads in second place. -/
theorem isUploadPath_iff {path : String} :
    isUploadPath path = true ↔
      HasSecondSegment "uploads".toList path.toList := by
  rw [isUploadPath, decide_eq_true_iff, pieces_second_eq_some_iff]
  constructor
  · rintro ⟨first, tail, htrim, hnot, hhead⟩
    obtain ⟨hsegment, htail⟩ := pieces_head?_eq_some_iff.1 hhead
    refine ⟨path.toList.takeWhile (· == '/'), first, tail, ?_, ?_, ?_, hnot,
      hsegment, htail⟩
    · rw [List.append_assoc, ← htrim, trimStart, List.takeWhile_append_dropWhile]
    · intro c hc
      simpa using List.mem_takeWhile_imp hc
    · rintro rfl
      have := List.head?_dropWhile_not (· == '/') path.toList
      rw [trimStart] at htrim
      rw [htrim] at this
      simp at this
  · rintro ⟨slashes, first, tail, hpath, hslashes, hne, hnot, hsegment, htail⟩
    refine ⟨first, tail, ?_, hnot, pieces_head?_eq_some_iff.2 ⟨hsegment, htail⟩⟩
    rw [hpath, List.append_assoc, trimStart, List.dropWhile_append_of_pos (by simpa using hslashes)]
    cases first with
    | nil => exact absurd rfl hne
    | cons c cs =>
        have hc : c ≠ '/' := fun h => hnot (h ▸ List.mem_cons_self)
        simp [hc]

end Segments

end Store
end Reclaim
