import Reclaim.Proofs.Store.Children
import Reclaim.Proofs.Store.Unlink

/-!
# Entries that nothing lies under

An entry is unlinked only if nothing lies under it.  The store does not go through
all paths to find that out: it looks at the first one that is not before the start
of the directory.  Siblings may come before the children of a directory or after
them, as `/a-b` and `/a0` do with `/a`, but never between them, so that the single
path tells as much as all paths do.

A path with a slash at its end lies under itself.  An entry at such a path is not
unlinked, whatever else is stored.

Main results: `liesUnder_iff_isBelow` for the paths under a directory, and
`unlinked_iff_nothing_under` for the entries that are unlinked.
-/

namespace Reclaim
namespace Store

open Text

/-- A path goes on with a slash behind the path of a directory without the slashes at its end. -/
def LiesUnder (path directory : String) : Prop :=
  ∃ (base rest : List Char) (slashes : Nat),
    directory.toList = base ++ List.replicate slashes '/' ∧ base.getLast? ≠ some '/' ∧
      path.toList = base ++ '/' :: rest

/--
There is an entry at a path, no failure is injected for it, it is no part of an
upload unless these are allowed, and nothing lies under it.
-/
structure Unlinkable (s : Services) (path : String) (allow : Bool) : Prop where
  stored : path ∈ s.entries.keys
  accepted : ∀ start ∈ s.failures, ¬ start.toList <+: path.toList
  permitted : allow = true ∨ ¬ HasSecondSegment "uploads".toList path.toList
  empty : ∀ other ∈ s.entries.keys, ¬ LiesUnder other path

/-- The entry at a path is gone, and all else is as before but for the calls. -/
structure Removes (path : String) (s t : Services) : Prop where
  get?_entries : ∀ other,
    t.entries.get? other = if other = path then none else s.entries.get? other
  others : t = { s with entries := t.entries, calls := t.calls }

section Under

variable {path directory : String}

/-- What lies under a directory is what starts like all that is below it. -/
theorem liesUnder_iff_isBelow : LiesUnder path directory ↔ IsBelow path directory := by
  rw [isBelow_iff, childrenStart, trimmed, String.toList_append, String.toList_ofList]
  constructor
  · rintro ⟨base, rest, slashes, hdirectory, hlast, hpath⟩
    rw [trimEnd_eq_iff.2 ⟨⟨slashes, hdirectory⟩, hlast⟩, hpath]
    exact ⟨rest, by simp⟩
  · rintro ⟨rest, hpath⟩
    obtain ⟨⟨slashes, hdirectory⟩, hlast⟩ :=
      trimEnd_eq_iff.1 (Eq.refl (trimEnd '/' directory.toList))
    exact ⟨_, rest, slashes, hdirectory, hlast, by simp [← hpath]⟩

theorem liesUnder_self_iff : LiesUnder path path ↔ path.toList.getLast? = some '/' := by
  constructor
  · rintro ⟨base, rest, slashes, hslashes, -, hpath⟩
    -- What stands behind the base is made of slashes, and there is one at least.
    have hrest : '/' :: rest = List.replicate slashes '/' :=
      List.append_cancel_left (hpath.symm.trans hslashes)
    rw [hslashes, ← hrest, List.getLast?_append_of_ne_nil _ (List.cons_ne_nil _ _), hrest,
      List.getLast?_replicate, if_neg]
    rintro rfl
    cases hrest
  · intro hslash
    obtain ⟨⟨slashes, hpath⟩, hlast⟩ :=
      trimEnd_eq_iff.1 (Eq.refl (trimEnd '/' path.toList))
    cases slashes with
    | zero =>
        rw [List.replicate_zero, List.append_nil] at hpath
        exact absurd (hpath ▸ hslash) hlast
    | succ n => exact ⟨_, List.replicate n '/', n + 1, hpath, hlast, hpath⟩

end Under

section Unlinking

variable {s : Services} {path : String} {allow : Bool}

theorem unlinkable_iff :
    Unlinkable s path allow ↔
      path ∈ s.entries.keys ∧ Free allow s.failures s.entries path := by
  have hpermitted : (isUploadPath path = true → allow = true) ↔
      allow = true ∨ ¬ HasSecondSegment "uploads".toList path.toList := by
    rw [isUploadPath_iff, imp_iff_or_not]
  have haccepted : ∀ start, Text.startsWith start path = false ↔
      ¬ start.toList <+: path.toList := by
    intro start
    rw [← Bool.not_eq_true, startsWith_iff]
  constructor
  · rintro ⟨hstored, hfailures, hallow, hempty⟩
    refine ⟨hstored, ?_, hpermitted.2 hallow, ?_⟩
    · exact fun start hstart => (haccepted start).2 (hfailures start hstart)
    · exact fun other hother hbelow => hempty other hother (liesUnder_iff_isBelow.2 hbelow)
  · rintro ⟨hstored, hfree⟩
    refine ⟨hstored, ?_, hpermitted.1 hfree.permitted, ?_⟩
    · exact fun start hstart => (haccepted start).1 (hfree.accepted start hstart)
    · exact fun other hother hunder =>
        hfree.childless other hother (liesUnder_iff_isBelow.1 hunder)

/-- An entry at a path with a slash at its end is never unlinked. -/
theorem not_unlinkable_of_last_slash (h : path.toList.getLast? = some '/') :
    ¬ Unlinkable s path allow :=
  fun hu => hu.empty path hu.stored (liesUnder_self_iff.2 h)

example : ((Services.addEntry {} "/a/" .directory).unlink "/a/" false).2 =
    .error (.notEmpty "/a/") := by
  decide

theorem unlink_snd_eq_ok_iff :
    (s.unlink path allow).2 = .ok () ↔ Unlinkable s path allow := by
  rw [unlinkable_iff, Sorted.SortedMap.mem_keys_iff]
  by_cases hfree : Free allow s.failures s.entries path
  · rw [unlink_of_free hfree]
    by_cases hstored : s.entries.contains path = true <;> simp [hstored, hfree]
  · obtain ⟨e, he, -⟩ := unlink_of_not_free hfree
    simp [he, hfree]

theorem removes_of_unlinkable (h : Unlinkable s path allow) :
    Removes path s (s.unlink path allow).1 := by
  rw [unlink_fst, attempt_of_free (unlinkable_iff.1 h).2]
  exact ⟨Sorted.SortedMap.get?_erase _ _, rfl⟩

/-- Of an entry that is not unlinked, only the call is remembered. -/
theorem unlink_fst_of_not_unlinkable (h : ¬ Unlinkable s path allow) :
    (s.unlink path allow).1 = s.log (.unlink path allow) := by
  rw [unlink_fst]
  by_cases hfree : Free allow s.failures s.entries path
  · have habsent : path ∉ s.entries.keys := fun hm => h (unlinkable_iff.2 ⟨hm, hfree⟩)
    rw [attempt_of_free hfree, Sorted.SortedMap.erase_of_not_mem habsent]
    rfl
  · rw [attempt_of_not_free hfree]
    rfl

end Unlinking

/--
The first path from the start of a directory on tells whether any stored path lies
under the directory.  So an entry is unlinked if and only if it is stored, no
failure has been injected for the start of its path, it is not part of an upload
unless uploads are allowed, and nothing lies under it.  Then it is gone and all
other entries stay; otherwise everything stays.
-/
theorem unlinked_iff_nothing_under (s : Services) (path : String) (allow : Bool) :
    (s.hasChildren path = true ↔
      ∃ found, IsFirstFrom s.entries.keys (childrenStart path) found ∧ LiesUnder found path) ∧
    (s.hasChildren path = true ↔ ∃ other ∈ s.entries.keys, LiesUnder other path) ∧
    ((s.unlink path allow).2 = .ok () ↔ Unlinkable s path allow) ∧
    (Unlinkable s path allow → Removes path s (s.unlink path allow).1) ∧
    (¬ Unlinkable s path allow → (s.unlink path allow).1 = s.log (.unlink path allow)) := by
  simp only [liesUnder_iff_isBelow]
  exact ⟨hasChildren_iff_isFirstFrom, hasChildren_iff, unlink_snd_eq_ok_iff,
    removes_of_unlinkable, unlink_fst_of_not_unlinkable⟩

section Sample

/-- A directory with an object in it, and with siblings before and behind the object. -/
def siblings : Services :=
  (nested.addEntry "/a-b" (.object [])).addEntry "/a0" .directory

theorem unlinked_of_siblings :
    Unlinkable siblings "/a/b" false ∧
      (siblings.unlink "/a/b" false).2 = .ok () ∧
      Removes "/a/b" siblings (siblings.unlink "/a/b" false).1 ∧
      siblings.hasChildren "/a" = true ∧ ¬ Unlinkable siblings "/a" false ∧
      (siblings.unlink "/a" false).1 = siblings.log (.unlink "/a" false) := by
  obtain ⟨-, -, hobject, hremoves, -⟩ := unlinked_iff_nothing_under siblings "/a/b" false
  obtain ⟨-, hscan, -, -, hstays⟩ := unlinked_iff_nothing_under siblings "/a" false
  have hunlinkable : Unlinkable siblings "/a/b" false :=
    unlinkable_iff.2 ⟨by decide, by decide⟩
  have hunder : LiesUnder "/a/b" "/a" := ⟨['/', 'a'], ['b'], 0, rfl, by simp, rfl⟩
  have hstored := hunlinkable.stored
  have hkept : ¬ Unlinkable siblings "/a" false := fun h => h.empty "/a/b" hstored hunder
  exact ⟨hunlinkable, hobject.2 hunlinkable, hremoves hunlinkable,
    hscan.2 ⟨"/a/b", hstored, hunder⟩, hkept, hstays hkept⟩

end Sample

end Store
end Reclaim
