import Reclaim.Proofs.Store.Retry
import Reclaim.Proofs.Upload.Pass

/-!
# Passes after a failed pass

A pass in which calls are refused leaves some batches half done: parts may be
gone while the directory is kept, or all entries while the finalizing record is
kept.  The next pass over the same records makes up for all of this.

A cleanup is a step on entries and records.  The step of a batch makes up for an
earlier try of the same batch, and steps of batches whose paths do not lie below
each other can be swapped.

Main results: `settle_retry` and `settle_comm` for the steps, and
`contents_eq_of_retry` for two passes.
-/

namespace Reclaim
namespace Upload

/-- The entries and records of services. -/
abbrev Contents := Store.Entries × Sorted.SortedMap Store.Slot Store.Stored

def contents (s : Store.Services) : Contents :=
  (s.entries, s.records)

/-- Services with these contents, that have not been called. -/
def holding (accounts : List (Uuid × String)) (failures : List String)
    (d : Contents) : Store.Services where
  entries := d.1
  records := d.2
  accounts := accounts
  failures := failures

/-- What a cleanup of a batch makes of entries and records. -/
def settle (o : RemovalOptions) (accounts : List (Uuid × String))
    (failures : List String) (d : Contents) (v : Verified) : Contents :=
  ((sweeping o (holding accounts failures d) v).entries,
    d.2.eraseAll (slotsErased o (holding accounts failures d) v))

section Steps

variable {o : RemovalOptions} {accounts : List (Uuid × String)}
variable {failures failures' : List String} {s : Store.Services}
variable {d d' : Contents} {v w : Verified}

theorem contents_clean (o : RemovalOptions) (s : Store.Services) (n : Report)
    (v : Verified) :
    contents (clean o s n v).1 = settle o s.accounts s.failures (contents s) v := by
  rw [clean_eq]
  rfl

theorem contents_cleanAll (o : RemovalOptions) (s : Store.Services) (n : Report)
    (vs : List Verified) :
    contents (cleanAll o s n vs).1 =
      vs.foldl (settle o s.accounts s.failures) (contents s) := by
  induction vs generalizing s n with
  | nil => rfl
  | cons v vs ih =>
      rw [cleanAll_cons, ih, clean_accounts, clean_failures, contents_clean,
        List.foldl_cons]

/-- If the account is looked up at all, the stages are those without failures. -/
theorem stages_holding_cases (accounts : List (Uuid × String))
    (failures : List String) (d d' : Contents) (v : Verified) :
    stages (holding accounts failures d) v = [none] ∨
      stages (holding accounts failures d) v = stages (holding accounts [] d') v := by
  unfold stages resolved?
  cases ownerOf v with
  | error fault => exact .inl rfl
  | ok owner =>
      have hnone : (holding accounts [] d').refusal? owner.text = none := rfl
      simp only [hnone]
      cases (holding accounts failures d).refusal? owner.text with
      | some e => exact .inl rfl
      | none => exact .inr rfl

theorem stages_holding (d d' : Contents) (v : Verified) :
    stages (holding accounts failures d) v =
      stages (holding accounts failures d') v := rfl

/-- The part of a batch that was swept is swept again to the same end. -/
theorem sweeping_retry (o : RemovalOptions) (failures : List String)
    (hflat : Store.Flat (v.partPaths (holding accounts [] d))) :
    sweeping o (holding accounts [] (settle o accounts failures d v)) v =
      sweeping o (holding accounts [] d) v := by
  have hstages : ∀ paths, some paths ∈ stages (holding accounts [] d) v →
      Store.Flat paths := by
    intro paths hm
    rcases eq_of_mem_stages hm with rfl | ⟨-, hlength⟩
    · exact hflat
    · exact Store.flat_of_length_le_one hlength
  rw [sweeping, stages_holding _ d]
  rcases stages_holding_cases accounts failures d d v with h | h
  · -- The account was not looked up, and nothing has been tried.
    have hentries : (settle o accounts failures d v).1 = d.1 := by
      rw [settle, sweeping, h]
      rfl
    rw [sweeping, holding, hentries]
    rfl
  · have hentries : (settle o accounts failures d v).1 =
        (Store.sweepStages o.allowUploads failures d.1
          (stages (holding accounts [] d) v)).entries := by
      rw [settle, sweeping, h]
      rfl
    rw [holding, hentries]
    exact Store.sweepStages_retry hstages

theorem cleared_without_failures
    (h : (sweeping o (holding accounts failures d) v).cleared = true) :
    (sweeping o (holding accounts [] d) v).cleared = true := by
  obtain ⟨paths, hstages, hclear⟩ := Store.exists_of_cleared h
  rcases stages_holding_cases accounts failures d d v with hnone | hsame
  · rw [hnone] at hstages
    cases paths <;> simp at hstages
  · rw [sweeping, ← hsame, hstages]
    exact congrArg Store.Sweeping.cleared
      (Store.sweepStages_of_clear hclear.without_failures)

theorem mem_slotsErased_iff {slot : Store.Slot} :
    slot ∈ slotsErased o s v ↔
      ((sweeping o s v).cleared = true ∧
        ∃ f, v.finalizing = some f ∧ s.refusal? f.shard = none ∧ slotOf f = slot) ∧
        s.refusal? slot.key = none := by
  rw [slotsErased, List.mem_filter, Option.mem_toList, deletion?_eq_some_iff,
    decide_eq_true_iff]

theorem slotsErased_without_failures :
    slotsErased o (holding accounts failures d) v ⊆
      slotsErased o (holding accounts [] d) v := by
  intro slot hslot
  obtain ⟨⟨hcleared, f, hf, -, hfslot⟩, -⟩ := mem_slotsErased_iff.1 hslot
  exact mem_slotsErased_iff.2
    ⟨⟨cleared_without_failures hcleared, f, hf, rfl, hfslot⟩, rfl⟩

theorem slotsErased_congr
    (h : (sweeping o (holding accounts failures d) v).cleared =
      (sweeping o (holding accounts failures d') v).cleared) :
    slotsErased o (holding accounts failures d) v =
      slotsErased o (holding accounts failures d') v := by
  simp only [slotsErased, deletion?, h]
  rfl

/-- A cleanup without failures makes up for a cleanup of the same batch with failures. -/
theorem settle_retry (hflat : Store.Flat (v.partPaths (holding accounts [] d))) :
    settle o accounts [] (settle o accounts failures d v) v =
      settle o accounts [] d v := by
  have hsweep := sweeping_retry o failures hflat
  have hslots := slotsErased_congr (congrArg Store.Sweeping.cleared hsweep)
  refine Prod.ext (congrArg Store.Sweeping.entries hsweep) ?_
  calc ((settle o accounts failures d v).2).eraseAll
        (slotsErased o (holding accounts [] (settle o accounts failures d v)) v)
      = (d.2.eraseAll (slotsErased o (holding accounts failures d) v)).eraseAll
          (slotsErased o (holding accounts [] d) v) := by rw [hslots]; rfl
    _ = d.2.eraseAll (slotsErased o (holding accounts [] d) v) :=
        Sorted.SortedMap.eraseAll_of_subset _ slotsErased_without_failures

/-- What a cleanup of a batch erases does not decide about a batch elsewhere. -/
theorem sweeping_settle (o : RemovalOptions) (failures failures' : List String)
    (hapart : Store.Apart (v.livePaths (holding accounts [] d))
      (w.livePaths (holding accounts [] d))) :
    ∃ erased, (settle o accounts failures' d w).1 = d.1.eraseAll erased ∧
      (settle o accounts failures (settle o accounts failures' d w) v).1 =
        (settle o accounts failures d v).1.eraseAll erased ∧
      (sweeping o (holding accounts failures (settle o accounts failures' d w)) v).cleared =
        (sweeping o (holding accounts failures d) v).cleared := by
  obtain ⟨erased, hentries, herased⟩ := Store.exists_eraseAll_of_sweepStages
    o.allowUploads failures' d.1 (stages (holding accounts failures' d) w)
  have hfirst : (settle o accounts failures' d w).1 = d.1.eraseAll erased := hentries
  have hsweep : sweeping o (holding accounts failures (settle o accounts failures' d w)) v =
      { sweeping o (holding accounts failures d) v with
        entries :=
          (sweeping o (holding accounts failures d) v).entries.eraseAll erased } := by
    rw [sweeping, stages_holding _ d, holding, hfirst]
    refine Store.sweepStages_eraseAll fun paths hpaths p hp x hx => ?_
    obtain ⟨⟨others, hothers, hxs⟩, -⟩ := herased x hx
    exact (hapart p (mem_livePaths_of_stages (s := holding accounts failures d) hpaths hp)
      x (mem_livePaths_of_stages (s := holding accounts failures' d) hothers hxs)).2
  exact ⟨erased, hfirst, congrArg Store.Sweeping.entries hsweep, by rw [hsweep]⟩

/-- Cleanups of batches whose paths do not lie below each other can be swapped. -/
theorem settle_comm
    (hapart : Store.Apart (v.livePaths (holding accounts [] d))
      (w.livePaths (holding accounts [] d))) :
    settle o accounts failures (settle o accounts failures' d w) v =
      settle o accounts failures' (settle o accounts failures d v) w := by
  obtain ⟨xs, hxs, hv, hvcleared⟩ := sweeping_settle o failures failures' hapart
  obtain ⟨ys, hys, hw, hwcleared⟩ := sweeping_settle o failures' failures hapart.symm
  refine Prod.ext ?_ ?_
  · -- In either order, the paths of both batches are erased from the same entries.
    rw [hv, hw, hxs, hys, Sorted.SortedMap.eraseAll_comm]
  · calc (settle o accounts failures' d w).2.eraseAll _
        = (d.2.eraseAll (slotsErased o (holding accounts failures' d) w)).eraseAll
            (slotsErased o (holding accounts failures d) v) := by
          rw [slotsErased_congr hvcleared]
          rfl
      _ = (d.2.eraseAll (slotsErased o (holding accounts failures d) v)).eraseAll
            (slotsErased o (holding accounts failures' d) w) :=
          Sorted.SortedMap.eraseAll_comm _ _ _
      _ = (settle o accounts failures d v).2.eraseAll _ := by
          rw [slotsErased_congr hwcleared]
          rfl

end Steps

section Passes

variable {policy : GracePolicy} {s : Store.Services} {records : List Record}

theorem contents_cleanUp (o : RemovalOptions) (policy : GracePolicy)
    (s : Store.Services) (records : List Record) :
    contents (cleanUp o policy s records).1 =
      (handed policy records).foldl (settle o s.accounts s.failures) (contents s) := by
  rw [cleanUp_fst, contents_cleanAll]

/--
Let no path of a live record of an upload that is handed out lie below such a
path of another upload, and no part lie below another part of its upload.  Then
a pass with any injected failures and another one over the same records without
failures leave the same entries and records as a single pass without failures.
-/
theorem contents_eq_of_retry (o : RemovalOptions) (failures : List String)
    (hapart : (handed policy records).Pairwise fun v w =>
      Store.Apart (v.livePaths s) (w.livePaths s))
    (hflat : ∀ v ∈ handed policy records, Store.Flat (v.partPaths s)) :
    let first := (cleanUp o policy { s with failures := failures } records).1
    let second := (cleanUp o policy { first with failures := [] } records).1
    let once := (cleanUp o policy { s with failures := [] } records).1
    second.entries = once.entries ∧ second.records = once.records := by
  intro first second once
  have hfirst : contents first =
      (handed policy records).foldl (settle o s.accounts failures) (contents s) :=
    contents_cleanUp o policy { s with failures := failures } records
  -- The accounts stay, so the second pass takes its steps with the same accounts.
  have haccounts : first.accounts = s.accounts := by
    rw [show first = _ from cleanUp_fst o policy _ records]
    exact (cleanAll_accounts_failures o _ _ _).1
  have hsecond : contents second =
      (handed policy records).foldl (settle o s.accounts []) (contents first) := by
    rw [← haccounts]
    exact contents_cleanUp o policy { first with failures := [] } records
  have honce : contents once =
      (handed policy records).foldl (settle o s.accounts []) (contents s) :=
    contents_cleanUp o policy { s with failures := [] } records
  have hpaths : ∀ (d : Contents) (v : Verified) (rs : List LiveRecord),
      v.pathsOf (holding s.accounts [] d) rs = v.pathsOf s rs :=
    fun d v rs => pathsOf_congr rfl v rs
  have hretry : contents second = contents once := by
    rw [hsecond, hfirst, honce]
    refine Store.foldl_retry ?_ ?_ (contents s)
    · intro v hv d
      refine settle_retry ?_
      rw [Verified.partPaths, hpaths]
      exact hflat v hv
    · refine hapart.imp fun hvw d => settle_comm ?_
      rw [Verified.livePaths, Verified.livePaths, hpaths, hpaths]
      exact hvw
  exact ⟨congrArg Prod.fst hretry, congrArg Prod.snd hretry⟩

/-- A second upload of the account, with one part. -/
def secondBatch : Verified :=
  let upload := sampleUpload ⟨2, by decide⟩
  { upload := upload
    finalizing :=
      some ⟨upload, "v:" ++ sampleKey "o", "s2", .wholeSecond 1, .abort⟩
    directory := some ⟨upload, sampleKey "e", .wholeSecond 1, .directory⟩
    parts := [⟨upload, sampleKey "e/0", .wholeSecond 1, .part⟩] }

/-- The entries and finalizing records of both uploads. -/
def retriedServices : Store.Services :=
  ((((sampleServices.addEntry "/jo/e" .directory).addEntry "/jo/e/0" (.object [])).addRecord
    ⟨"s1", finalizingBucket, "u:" ++ sampleKey "o"⟩ .null).addRecord
    ⟨"s2", finalizingBucket, "v:" ++ sampleKey "o"⟩ .null)

/-- The records of both uploads. -/
def retriedStream : List Record :=
  sampleBatch.inOrder ++ secondBatch.inOrder

/-- In the sample, a part of one upload and the shard of the other are refused at first. -/
theorem contents_eq_of_retried_sample :
    let first := (cleanUp ⟨1, true⟩ samplePolicy
      { retriedServices with failures := ["/jo/d/1", "s2"] } retriedStream).1
    let second := (cleanUp ⟨1, true⟩ samplePolicy
      { first with failures := [] } retriedStream).1
    let once := (cleanUp ⟨1, true⟩ samplePolicy
      { retriedServices with failures := [] } retriedStream).1
    first.entries.keys = ["/jo/d", "/jo/d/1"] ∧ once.entries.keys = [] ∧
      second.entries = once.entries ∧ second.records = once.records := by
  have hhanded : handed samplePolicy retriedStream = [sampleBatch, secondBatch] := by
    decide +kernel
  have hapart : (handed samplePolicy retriedStream).Pairwise fun v w =>
      Store.Apart (v.livePaths retriedServices) (w.livePaths retriedServices) := by
    rw [hhanded]
    decide +kernel
  have hflat : ∀ v ∈ handed samplePolicy retriedStream,
      Store.Flat (v.partPaths retriedServices) := by
    rw [hhanded]
    decide +kernel
  have hretry := contents_eq_of_retry ⟨1, true⟩ ["/jo/d/1", "s2"] hapart hflat
  exact ⟨by decide +kernel, by decide +kernel, hretry⟩

end Passes

end Upload
end Reclaim
