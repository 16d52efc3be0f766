import Reclaim.Proofs.Store.Paths
import Reclaim.Proofs.Text.Order
import Reclaim.Text.Blank

/-!
# The children of a directory

The path of an entry is made of names, each behind a slash.  Its parent is what
stands before its last name, except at the top, where the parent is a slash.  A
directory is listed under its path without the slashes at the end.  The two agree
for all directories but the root: nothing has the empty path as its parent, so
the list of the root is empty.

Main results: `parent_eq_trimmed_iff` says which entries have a directory as their
parent, and `list_of_absolute` what the list of a directory is.
-/

namespace Reclaim
namespace Store

open Text

/-- A path made of names that are not empty, each behind a slash. -/
def IsAbsolute (path : String) : Prop :=
  ∃ names : List (List Char), names ≠ [] ∧
    (∀ name ∈ names, name ≠ [] ∧ '/' ∉ name) ∧
    path.toList = names.flatMap ('/' :: ·)

/-- What has been found are the children of a directory, in the order of their paths. -/
structure ListsChildren (s : Services) (directory : String)
    (found : List (String × Entry)) : Prop where
  mem_iff : ∀ name e, (name, e) ∈ found ↔
    '/' ∉ name.toList ∧ s.entries.get? (childrenStart directory ++ name) = some e
  inOrder : found.Pairwise fun a b =>
    BytesBefore (childrenStart directory ++ a.1) (childrenStart directory ++ b.1)

section Texts

variable {sep : Char} {s before after name : List Char}

/-- A text is cut at the last separator and nowhere else. -/
theorem cutLast?_eq_some_iff :
    cutLast? sep s = some (before, after) ↔
      s = before ++ sep :: after ∧ sep ∉ after := by
  simp only [cutLast?, Option.map_eq_some_iff, Prod.exists, Prod.mk.injEq,
    cut?_eq_some_iff]
  constructor
  · rintro ⟨last, first, ⟨hs, hnot⟩, rfl, rfl⟩
    refine ⟨?_, by simpa using hnot⟩
    rw [← List.reverse_reverse s, hs]
    simp
  · rintro ⟨rfl, hnot⟩
    exact ⟨after.reverse, before.reverse, by simp [hnot]⟩

/-- What is left of a text without the separators at its end. -/
theorem trimEnd_eq_iff :
    trimEnd sep s = before ↔
      (∃ n, s = before ++ List.replicate n sep) ∧ before.getLast? ≠ some sep := by
  constructor
  · rintro rfl
    refine ⟨⟨(s.reverse.takeWhile (· == sep)).length, ?_⟩, fun hlast => ?_⟩
    · have hseps : s.reverse.takeWhile (· == sep) =
          List.replicate (s.reverse.takeWhile (· == sep)).length sep :=
        List.eq_replicate_iff.2 ⟨rfl, fun c hc => by simpa using List.mem_takeWhile_imp hc⟩
      rw [← List.reverse_inj, List.reverse_append, List.reverse_replicate, ← hseps, trimEnd,
        List.reverse_reverse, List.takeWhile_append_dropWhile]
    · have hhead := List.head?_dropWhile_not (· == sep) s.reverse
      rw [trimEnd, List.getLast?_reverse] at hlast
      simp [hlast] at hhead
  · rintro ⟨⟨n, rfl⟩, hlast⟩
    have hhead : ∀ c ∈ before.reverse.head?, (c == sep) = false := by
      intro c hc
      rw [List.head?_reverse] at hc
      exact beq_false_of_ne fun h => hlast (h ▸ hc)
    rw [trimEnd, List.reverse_append, List.reverse_replicate,
      List.dropWhile_append_of_pos (by simp), dropWhile_eq_self_of_head hhead,
      List.reverse_reverse]

theorem trimEnd_append (hne : name ≠ []) (hnot : sep ∉ name) :
    trimEnd sep (before ++ name) = before ++ name := by
  refine trimEnd_eq_iff.2 ⟨⟨0, (List.append_nil _).symm⟩, fun hlast => hnot ?_⟩
  rw [List.getLast?_append_of_ne_nil _ hne] at hlast
  exact List.mem_of_getLast? hlast

theorem trimEnd_ne_append_sep : trimEnd sep s ≠ before ++ [sep] :=
  fun h => (trimEnd_eq_iff.1 h).2 List.getLast?_concat

end Texts

section Parents

variable {path directory name : String}

theorem IsAbsolute.exists_lastName (h : IsAbsolute path) :
    ∃ before last, path.toList = before ++ '/' :: last ∧ last ≠ [] ∧ '/' ∉ last := by
  obtain ⟨names, hne, hnames, hpath⟩ := h
  obtain ⟨hlast, hnot⟩ := hnames _ (List.getLast_mem hne)
  refine ⟨names.dropLast.flatMap ('/' :: ·), names.getLast hne, ?_, hlast, hnot⟩
  rw [hpath]
  conv_lhs => rw [← List.dropLast_concat_getLast hne]
  simp

theorem parent_eq {before last : List Char} (hpath : path.toList = before ++ '/' :: last)
    (hne : last ≠ []) (hnot : '/' ∉ last) :
    parent path = if before = [] then "/" else String.ofList before := by
  have htrim : trimEnd '/' path.toList = before ++ '/' :: last := by
    rw [hpath, List.append_cons, trimEnd_append hne hnot]
  rw [parent, htrim, cutLast?_eq_some_iff.2 ⟨rfl, hnot⟩]
  cases before <;> rfl

/-- No entry has the empty path as its parent. -/
theorem IsAbsolute.parent_ne_empty (h : IsAbsolute path) : parent path ≠ "" := by
  obtain ⟨before, last, hpath, hne, hnot⟩ := h.exists_lastName
  rw [parent_eq hpath hne hnot]
  split
  · decide
  · next hbefore => simpa using hbefore

theorem toList_childrenStart_append :
    (childrenStart directory ++ name).toList =
      (trimmed directory).toList ++ '/' :: name.toList := by
  simp [childrenStart]

/-- The entries with a directory as their parent are those one name below it. -/
theorem parent_eq_trimmed_iff (hpath : IsAbsolute path) (hroot : trimmed directory ≠ "") :
    parent path = trimmed directory ↔
      ∃ name, '/' ∉ name.toList ∧ path = childrenStart directory ++ name := by
  obtain ⟨before, last, hlast, hne, hnot⟩ := hpath.exists_lastName
  rw [parent_eq hlast hne hnot]
  constructor
  · intro h
    split at h
    · -- The parent at the top ends in a slash, and no trimmed path does.
      have htrimmed : ([] ++ ['/'] : List Char) = trimEnd '/' directory.toList := by
        rw [← String.toList_ofList (l := trimEnd '/' directory.toList)]
        exact congrArg String.toList h
      exact absurd htrimmed.symm trimEnd_ne_append_sep
    · refine ⟨String.ofList last, by rwa [String.toList_ofList], ?_⟩
      rw [← String.toList_inj, hlast, toList_childrenStart_append, ← h]
      simp
  · rintro ⟨name, hname, hpath⟩
    -- Both sides are cut at the last slash of the path.
    have hcut := cutLast?_eq_some_iff.2 ⟨hlast, hnot⟩
    have hcut' : cutLast? '/' path.toList = some ((trimmed directory).toList, name.toList) :=
      cutLast?_eq_some_iff.2 ⟨by rw [hpath, toList_childrenStart_append], hname⟩
    rw [hcut, Option.some.injEq, Prod.mk.injEq] at hcut'
    rw [hcut'.1, if_neg (by simpa using hroot), String.ofList_toList]

theorem nameIn_trimmed (h : '/' ∉ name.toList) :
    nameIn (trimmed directory) (childrenStart directory ++ name) = name := by
  have hhead : ∀ c ∈ name.toList.head?, (c == '/') = false := by
    intro c hc
    exact beq_false_of_ne fun heq => h (heq ▸ List.mem_of_head? hc)
  rw [nameIn, toList_childrenStart_append, List.drop_left, trimStart,
    List.dropWhile_cons_of_pos (by simp), dropWhile_eq_self_of_head hhead,
    String.ofList_toList]

theorem childrenStart_append_ne : childrenStart directory ++ name ≠ trimmed directory := by
  intro h
  have hlength := congrArg (fun s => s.toList.length) h
  simp [childrenStart] at hlength

end Parents

section Lists

variable {s : Services} {directory : String}

theorem list_eq (h : s.refusal? directory = none) :
    s.list directory = (s.log (.list directory), .ok (s.children directory)) := by
  rw [Services.list, h]

theorem mem_children_iff {name : String} {e : Entry} :
    (name, e) ∈ s.children directory ↔
      ∃ path, (path, e) ∈ s.entries.pairs ∧ parent path = trimmed directory ∧
        path ≠ trimmed directory ∧ nameIn (trimmed directory) path = name := by
  simp only [Services.children, List.mem_map, List.mem_filter, Prod.exists, Prod.mk.injEq,
    Bool.and_eq_true, decide_eq_true_iff]
  constructor
  · rintro ⟨path, e', ⟨hmem, hparent, hne⟩, hname, rfl⟩
    exact ⟨path, hmem, hparent, hne, hname⟩
  · rintro ⟨path, hmem, hparent, hne, hname⟩
    exact ⟨path, e, ⟨hmem, hparent, hne⟩, hname, rfl⟩

variable (hpaths : ∀ path ∈ s.entries.keys, IsAbsolute path)
include hpaths

theorem children_of_root (hroot : trimmed directory = "") : s.children directory = [] := by
  rw [List.eq_nil_iff_forall_not_mem]
  rintro ⟨name, e⟩ hmem
  obtain ⟨path, hpair, hparent, -⟩ := mem_children_iff.1 hmem
  have hkey : path ∈ s.entries.keys := List.mem_map.2 ⟨_, hpair, rfl⟩
  exact (hpaths path hkey).parent_ne_empty (hparent.trans hroot)

theorem listsChildren (hroot : trimmed directory ≠ "") :
    ListsChildren s directory (s.children directory) where
  mem_iff name e := by
    rw [mem_children_iff]
    constructor
    · rintro ⟨path, hpair, hparent, -, hname⟩
      have hkey : path ∈ s.entries.keys := List.mem_map.2 ⟨_, hpair, rfl⟩
      obtain ⟨last, hnot, rfl⟩ := (parent_eq_trimmed_iff (hpaths path hkey) hroot).1 hparent
      rw [nameIn_trimmed hnot] at hname
      subst hname
      exact ⟨hnot, Sorted.SortedMap.get?_of_mem hpair⟩
    · rintro ⟨hnot, hget⟩
      have hpair := Sorted.mem_of_lookup? hget
      have hkey : childrenStart directory ++ name ∈ s.entries.keys :=
        List.mem_map.2 ⟨_, hpair, rfl⟩
      exact ⟨_, hpair, (parent_eq_trimmed_iff (hpaths _ hkey) hroot).2 ⟨name, hnot, rfl⟩,
        childrenStart_append_ne, nameIn_trimmed hnot⟩
  inOrder := by
    -- A child's name behind the start of the directory is the child's path again.
    have hback : ∀ p ∈ s.entries.pairs, parent p.1 = trimmed directory →
        childrenStart directory ++ nameIn (trimmed directory) p.1 = p.1 := by
      intro p hp hparent
      have hkey : p.1 ∈ s.entries.keys := List.mem_map.2 ⟨p, hp, rfl⟩
      obtain ⟨last, hnot, hlast⟩ := (parent_eq_trimmed_iff (hpaths p.1 hkey) hroot).1 hparent
      rw [hlast, nameIn_trimmed hnot]
    refine List.pairwise_map.2 ?_
    refine (s.entries.rising.filter _).imp_of_mem fun {a b} ha hb hlt => ?_
    simp only [List.mem_filter, Bool.and_eq_true, decide_eq_true_iff] at ha hb
    rw [hback a ha.1 ha.2.1, hback b hb.1 hb.2.1]
    exact bytesBefore_iff.2 hlt

omit hpaths in
/-- An empty list is right where no entry is one name below. -/
theorem listsChildren_nil_iff :
    ListsChildren s directory [] ↔
      ∀ name, '/' ∉ name.toList →
        s.entries.get? (childrenStart directory ++ name) = none := by
  constructor
  · intro h name hnot
    refine Option.eq_none_iff_forall_ne_some.2 fun e hget => ?_
    exact List.not_mem_nil ((h.mem_iff name e).2 ⟨hnot, hget⟩)
  · refine fun h => ⟨fun name e => ⟨fun hm => absurd hm List.not_mem_nil, ?_⟩, .nil⟩
    rintro ⟨hnot, hget⟩
    rw [h name hnot] at hget
    cases hget

/-- The list is right unless it is that of the root and there are entries at the top. -/
theorem listsChildren_children_iff :
    ListsChildren s directory (s.children directory) ↔
      trimmed directory ≠ "" ∨ ∀ name, '/' ∉ name.toList →
        s.entries.get? (childrenStart directory ++ name) = none := by
  by_cases hroot : trimmed directory = ""
  · rw [children_of_root hpaths hroot, listsChildren_nil_iff]
    exact (or_iff_right (not_not_intro hroot)).symm
  · exact iff_of_true (listsChildren hpaths hroot) (.inl hroot)

end Lists

/--
With absolute paths, the list of a directory is made of its children in the order
of the bytes of their paths, unless the directory is the root: its list is empty,
and so it is right only if there is no entry at the top.
-/
theorem list_of_absolute (s : Services) (directory : String)
    (hpaths : ∀ path ∈ s.entries.keys, IsAbsolute path)
    (haccepted : s.refusal? directory = none) :
    ∃ found, (s.list directory).2 = .ok found ∧
      (trimmed directory = "" → found = []) ∧
      (ListsChildren s directory found ↔
        trimmed directory ≠ "" ∨ ∀ name, '/' ∉ name.toList →
          s.entries.get? (childrenStart directory ++ name) = none) :=
  ⟨s.children directory, by rw [list_eq haccepted], children_of_root hpaths,
    listsChildren_children_iff hpaths⟩

section Sample

/-- A directory at the top with an object in it. -/
def nested : Services :=
  (Services.addEntry {} "/a" .directory).addEntry "/a/b" (.object [])

theorem isAbsolute_nested : ∀ path ∈ nested.entries.keys, IsAbsolute path := by
  have hkeys : nested.entries.keys = ["/a", "/a/b"] := by decide
  rw [hkeys, List.forall_mem_cons, List.forall_mem_singleton]
  exact ⟨⟨[['a']], by decide⟩, [['a'], ['b']], by decide⟩

theorem list_of_absolute_nested :
    (∀ path ∈ nested.entries.keys, IsAbsolute path) ∧
      nested.refusal? "/a/" = none ∧ trimmed "/a/" ≠ "" ∧
      ∃ found, (nested.list "/a/").2 = .ok found ∧ ListsChildren nested "/a/" found := by
  have haccepted : nested.refusal? "/a/" = none := by decide
  have hroot : trimmed "/a/" ≠ "" := by decide
  obtain ⟨found, hfound, -, hlists⟩ :=
    list_of_absolute nested "/a/" isAbsolute_nested haccepted
  exact ⟨isAbsolute_nested, haccepted, hroot, found, hfound, hlists.2 (.inl hroot)⟩

/-- The list of the root lacks the directory at the top. -/
theorem not_forall_listsChildren :
    ¬ ∀ (s : Services) (directory : String),
      (∀ path ∈ s.entries.keys, IsAbsolute path) →
      (directory = "/" ∨ IsAbsolute (trimmed directory)) →
      s.refusal? directory = none →
      ∃ found, (s.list directory).2 = .ok found ∧ ListsChildren s directory found := by
  intro h
  have haccepted : nested.refusal? "/" = none := by decide
  have htop : nested.entries.get? (childrenStart "/" ++ "a") = some .directory := by decide
  obtain ⟨found, hfound, hlists⟩ := h nested "/" isAbsolute_nested (.inl rfl) haccepted
  rw [list_eq haccepted, children_of_root isAbsolute_nested (by decide)] at hfound
  cases hfound
  exact List.not_mem_nil ((hlists.mem_iff "a" .directory).2 ⟨by decide, htop⟩)

end Sample

end Store
end Reclaim
