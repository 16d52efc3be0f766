import Reclaim.Proofs.Store.Retry
import Reclaim.Proofs.Upload.Cleanup

/-!
# Removals in any order

Removals that are under way at the same time may be carried out in any order.
If no path lies below another one, whether a path is free can be seen before the
first removal.  What is left and how many removals succeed is then told by the
paths that are free, and does not depend on their order.  A path may also occur
twice, since nothing is found there the second time.

Main results: `removalOf_of_flat` tells a removal from the paths that are free,
and `removeRecords_perm` says that the order of the records does not matter.
-/

namespace Reclaim
namespace Upload

section Paths

variable {o : RemovalOptions} {s : Store.Services} {paths : List String}

/-- The removal of paths, one after the other. -/
def removalOf (o : RemovalOptions) (s : Store.Services) (paths : List String) : Removal :=
  paths.foldl (Removal.remove o) { services := s }

theorem removed_remove (m : Removal) (path : String) :
    (m.remove o path).removed =
      m.removed +
        if Store.Free o.allowUploads m.services.failures m.services.entries path then 1
        else 0 := by
  by_cases h : Store.Free o.allowUploads m.services.failures m.services.entries path
  · rw [Removal.remove, removePath_of_free h, if_pos h]
  · obtain ⟨e, he⟩ := removePath_of_not_free h
    rw [Removal.remove, he, if_neg h]
    rfl

/-- Each path that is free at the start is removed once for each time it occurs. -/
theorem removed_foldl_remove (m : Removal) (hflat : Store.Flat paths) :
    (paths.foldl (Removal.remove o) m).removed =
      m.removed + paths.countP fun p =>
        Store.Free o.allowUploads m.services.failures m.services.entries p := by
  induction paths generalizing m with
  | nil => rfl
  | cons p ps ih =>
      have hps : Store.Flat ps := fun q hq r hr =>
        hflat q (List.mem_cons_of_mem p hq) r (List.mem_cons_of_mem p hr)
      -- Whether a later path is free is not changed by the first removal.
      have hsame : ps.countP (fun q => Store.Free o.allowUploads
            (m.remove o p).services.failures (m.remove o p).services.entries q) =
          ps.countP fun q =>
            Store.Free o.allowUploads m.services.failures m.services.entries q := by
        refine List.countP_congr fun q hq => ?_
        rw [(remove_eq m p).1, decide_eq_true_iff, decide_eq_true_iff]
        exact Store.free_attempt_iff
          (hflat p List.mem_cons_self q (List.mem_cons_of_mem p hq))
      rw [List.foldl_cons, ih _ hps, hsame, removed_remove, List.countP_cons]
      simp only [decide_eq_true_eq]
      omega

/-- What a removal comes to if no path lies below another one. -/
theorem removalOf_of_flat (o : RemovalOptions) (s : Store.Services)
    (hflat : Store.Flat paths) :
    let free := paths.filter (Store.Free o.allowUploads s.failures s.entries ·)
    (removalOf o s paths).services = tried o s (s.entries.eraseAll free) paths ∧
      (removalOf o s paths).removed = free.length ∧
      ((removalOf o s paths).failure = none ↔ free.length = paths.length) := by
  obtain ⟨hservices, hfailure⟩ := foldl_remove_eq (o := o) { services := s } paths
  refine ⟨?_, ?_, ?_⟩
  · rw [← Store.sweep_of_flat hflat]
    exact hservices
  · rw [removalOf, removed_foldl_remove _ hflat, List.countP_eq_length_filter, Nat.zero_add]
  · rw [removalOf, hfailure, Store.clear_iff_of_flat hflat, List.length_filter_eq_length_iff]
    simp

/-- Two removals did the same, but may have tried the paths in different orders. -/
structure Removal.Agree (first other : Removal) : Prop where
  services_eq :
    other.services = { first.services with calls := other.services.calls }
  calls_perm : other.services.calls.Perm first.services.calls
  removed_eq : other.removed = first.removed
  answer_eq : other.answer.toOption = first.answer.toOption

theorem toOption_answer (m : Removal) :
    m.answer.toOption = if m.failure = none then some m.removed else none := by
  unfold Removal.answer
  cases m.failure <;> rfl

theorem removalOf_perm (o : RemovalOptions) (s : Store.Services) {others : List String}
    (hperm : others.Perm paths) (hflat : Store.Flat paths) :
    (removalOf o s paths).Agree (removalOf o s others) := by
  have hflat' : Store.Flat others := fun p hp q hq =>
    hflat p (hperm.mem_iff.1 hp) q (hperm.mem_iff.1 hq)
  obtain ⟨hservices, hremoved, hfailure⟩ := removalOf_of_flat o s hflat
  obtain ⟨hservices', hremoved', hfailure'⟩ := removalOf_of_flat o s hflat'
  have hfree := hperm.filter (Store.Free o.allowUploads s.failures s.entries ·)
  refine ⟨?_, ?_, ?_, ?_⟩
  · rw [hservices, hservices', Sorted.SortedMap.eraseAll_perm _ hfree]
    rfl
  · rw [hservices, hservices']
    exact (hperm.map _).append_left _
  · rw [hremoved, hremoved', hfree.length_eq]
  · rw [toOption_answer, toOption_answer, hremoved, hremoved', hfree.length_eq]
    simp only [hfailure, hfailure', hfree.length_eq, hperm.length_eq]

end Paths

section Records

variable {o : RemovalOptions} {s : Store.Services} {login : String}
variable {owner : Uuid} {records : List LiveRecord}

theorem removeRecords_of_owned (upload : Uuid)
    (howned : ∀ r ∈ records, (accountPath? r.key owner login).isSome) :
    removeRecords o s upload owner login records =
      ((removalOf o s (pathsUnder owner login records)).services,
        (removalOf o s (pathsUnder owner login records)).answer) := by
  have hpaths : accountPaths upload owner login records =
      .ok (pathsUnder owner login records) := by
    rw [accountPaths_eq_ok_iff]
    exact map_pathsUnder_eq howned
  rw [removeRecords, hpaths]
  rfl

theorem removeRecords_of_not_owned (upload : Uuid)
    (hforeign : ¬ ∀ r ∈ records, (accountPath? r.key owner login).isSome) :
    ∃ fault, removeRecords o s upload owner login records = (s, .error fault) := by
  have hnone : ownPaths? upload owner login records = none := by
    rw [ownPaths?_eq_ite, if_neg hforeign]
  rcases removeRecords_cases o s upload owner login records with
    ⟨-, hfault⟩ | ⟨paths, hpaths, -⟩
  · exact hfault
  · cases hnone.symm.trans hpaths

/--
The parts of a batch may be removed in any order.  If no path of a part lies
below that of another one, the same entries are left, the removals succeed or
fail alike, and the same number of parts is removed, also if some are refused.
-/
theorem removeRecords_perm (o : RemovalOptions) (s : Store.Services) (v : Verified)
    (owner : Uuid) (login : String) {parts : List LiveRecord}
    (hperm : parts.Perm v.parts)
    (hflat : Store.Flat (pathsUnder owner login v.parts)) :
    let first := removeRecords o s v.upload owner login v.parts
    let other := removeRecords o s v.upload owner login parts
    other.1 = { first.1 with calls := other.1.calls } ∧
      other.1.calls.Perm first.1.calls ∧
      other.2.toOption = first.2.toOption ∧
      (removalOf o s (pathsUnder owner login parts)).removed =
        (removalOf o s (pathsUnder owner login v.parts)).removed := by
  have hpaths : (pathsUnder owner login parts).Perm (pathsUnder owner login v.parts) :=
    hperm.filterMap _
  have hagree := removalOf_perm o s hpaths hflat
  by_cases howned : ∀ r ∈ v.parts, (accountPath? r.key owner login).isSome
  · have howned' : ∀ r ∈ parts, (accountPath? r.key owner login).isSome :=
      fun r hr => howned r (hperm.mem_iff.1 hr)
    rw [removeRecords_of_owned v.upload howned, removeRecords_of_owned v.upload howned']
    exact ⟨hagree.services_eq, hagree.calls_perm, hagree.answer_eq, hagree.removed_eq⟩
  · have hforeign : ¬ ∀ r ∈ parts, (accountPath? r.key owner login).isSome :=
      fun h => howned fun r hr => h r (hperm.mem_iff.2 hr)
    obtain ⟨fault, hfault⟩ := removeRecords_of_not_owned (o := o) (s := s) v.upload howned
    obtain ⟨fault', hfault'⟩ := removeRecords_of_not_owned (o := o) (s := s) v.upload hforeign
    rw [hfault, hfault']
    exact ⟨rfl, .refl _, rfl, hagree.removed_eq⟩

/-- The sample with an upload directory among its parts, and a part that occurs twice. -/
def repeatedBatch : Verified :=
  { sampleBatch with
    parts :=
      [⟨sampleOwner, sampleKey "d", .wholeSecond 1, .part⟩,
        ⟨sampleOwner, sampleKey "e/0", .wholeSecond 1, .part⟩,
        ⟨sampleOwner, sampleKey "e/0", .wholeSecond 1, .part⟩] }

/-- In the sample, the directory is not empty, and the part is removed before it. -/
theorem removeRecords_of_reversed :
    let s := sampleServices.addEntry "/jo/e/0" (.object [])
    let reversed := repeatedBatch.parts.reverse
    reversed.Perm repeatedBatch.parts ∧
      Store.Flat (pathsUnder sampleOwner "jo" repeatedBatch.parts) ∧
      (removeRecords ⟨1, true⟩ s sampleOwner sampleOwner "jo" reversed).1.entries.keys =
        ["/jo/d", "/jo/d/1"] ∧
      (removeRecords ⟨1, true⟩ s sampleOwner sampleOwner "jo" reversed).2.toOption = none ∧
      (removalOf ⟨1, true⟩ s (pathsUnder sampleOwner "jo" reversed)).removed = 2 := by
  intro s reversed
  have hperm : reversed.Perm repeatedBatch.parts := List.reverse_perm _
  have hflat : Store.Flat (pathsUnder sampleOwner "jo" repeatedBatch.parts) := by
    decide +kernel
  obtain ⟨hservices, -, hanswer, hremoved⟩ :=
    removeRecords_perm ⟨1, true⟩ s repeatedBatch sampleOwner "jo" hperm hflat
  have hanswer' : (removeRecords ⟨1, true⟩ s sampleOwner sampleOwner "jo"
      repeatedBatch.parts).2.toOption = none := by
    decide +kernel
  refine ⟨hperm, hflat, ?_, hanswer.trans hanswer', ?_⟩
  · have hentries := congrArg (·.entries.keys) hservices
    refine hentries.trans ?_
    decide +kernel
  · rw [hremoved]
    decide +kernel

end Records
end Upload
end Reclaim
