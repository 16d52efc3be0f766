import Reclaim.Proofs.Stream.Run
import Reclaim.Proofs.Upload.Verification

/-!
# What is cleaned up of a stream of upload records

The batcher closes the batch of an upload when the next upload begins, and it
refuses records of closed uploads.  In a stream in order the uploads rise, so no
upload comes back, and each batch holds all records of its upload.

Main result: `run_eq_cleanups`.
-/

namespace Reclaim
namespace Upload

/-- A batcher after records of an open batch. -/
structure Batcher.After
    (last : Record) (records : List Record) (b : Batcher) : Prop where
  guard : b.guard = ⟨some last.sortKey⟩
  current : b.current = some ⟨last.upload, records⟩
  closed : ∀ u ∈ b.closed, compare u last.upload = .lt

section Push

variable {b : Batcher} {last r : Record} {records : List Record}

theorem uploads_follow_keys :
    Stream.NamesFollow Record.sortKey Record.upload :=
  .of_fst fun _ => rfl

/-- Closed uploads are before the uploads to come. -/
theorem Batcher.After.closed_lt
    (hb : b.After last records)
    (hle : (compare last.sortKey r.sortKey).isLE) :
    ∀ u ∈ b.closed, compare u r.upload = .lt := by
  intro u hu
  exact Std.TransCmp.lt_of_lt_of_isLE (hb.closed u hu)
    (uploads_follow_keys last r hle)

theorem push_of_le
    (hb : b.After last records)
    (hle : (compare last.sortKey r.sortKey).isLE) :
    b.push r = .ok ({ b with guard := ⟨some r.sortKey⟩ }.take r) := by
  have hopen : r.upload ∉ b.closed := by
    intro hm
    have hlt := hb.closed_lt hle r.upload hm
    rw [Std.ReflOrd.compare_self] at hlt
    cases hlt
  rw [Batcher.push, if_neg hopen, hb.guard, Stream.Guard.accept_of_le hle]

/-- A record of the same upload goes into the batch. -/
theorem push_of_same
    (hb : b.After last records)
    (hle : (compare last.sortKey r.sortKey).isLE)
    (hu : r.upload = last.upload) :
    ∃ b', b.push r = .ok (b', none) ∧ b'.After r (records ++ [r]) := by
  refine ⟨({ b with guard := ⟨some r.sortKey⟩ }.take r).1, ?_, ?_, ?_, ?_⟩
  · rw [push_of_le hb hle]
    simp only [Batcher.take, hb.current, hu, if_true]
  · simp only [Batcher.take, hb.current, hu, if_true]
  · simp only [Batcher.take, hb.current, hu, if_true]
  · simp only [Batcher.take, hb.current, hu, if_true]
    exact hb.closed

/-- A record of another upload closes the batch. -/
theorem push_of_other
    (hb : b.After last records)
    (hle : (compare last.sortKey r.sortKey).isLE)
    (hu : r.upload ≠ last.upload) :
    ∃ b', b.push r = .ok (b', some ⟨last.upload, records⟩) ∧
      b'.After r [r] := by
  refine ⟨({ b with guard := ⟨some r.sortKey⟩ }.take r).1, ?_, ?_, ?_, ?_⟩
  · rw [push_of_le hb hle]
    simp only [Batcher.take, hb.current, hu.symm, if_false]
  · simp only [Batcher.take, hb.current, hu.symm, if_false]
  · simp only [Batcher.take, hb.current, hu.symm, if_false]
  · simp only [Batcher.take, hb.current, hu.symm, if_false]
    intro u hm
    rcases List.mem_cons.1 hm with rfl | hm
    · rcases Ordering.isLE_iff_eq_lt_or_eq_eq.1
        (uploads_follow_keys last r hle) with hlt | heq
      · exact hlt
      · exact absurd (Std.LawfulEqOrd.eq_of_compare heq).symm hu
    · exact hb.closed_lt hle u hm

theorem push_start (r : Record) :
    ∃ b', Batcher.start.push r = .ok (b', none) ∧ b'.After r [r] := by
  refine ⟨⟨⟨some r.sortKey⟩, some ⟨r.upload, [r]⟩, []⟩, rfl, rfl, rfl, ?_⟩
  intro u hm
  cases hm

end Push

section Run

variable {policy : GracePolicy} {records : List Record}

/-- The batch that is handed out of the records of an upload, if they are finished. -/
def handedOut (policy : GracePolicy) (upload : Uuid) (records : List Record) :
    List Verified :=
  (Collector.judge policy {} ⟨upload, records⟩).2.toList

theorem offer_of_push_none
    (policy : GracePolicy) {c : Collector} {b' : Batcher} {r : Record}
    (h : c.batcher.push r = .ok (b', none)) :
    ∃ c', (batches policy).offer c r = (c', .ok []) ∧ c'.batcher = b' := by
  refine
    ⟨⟨b', { c.counts with records := c.counts.records + 1 }⟩, ?_, rfl⟩
  simp only [batches, Collector.offer, h, Collector.judgeClosed, Except.map,
    Option.toList_none]

theorem offer_of_push_some
    (policy : GracePolicy) {c : Collector} {b' : Batcher} {r : Record}
    {batch : Batch} (h : c.batcher.push r = .ok (b', some batch)) :
    ∃ c', (batches policy).offer c r =
        (c', .ok (handedOut policy batch.upload batch.records)) ∧
      c'.batcher = b' := by
  let n := { c.counts with records := c.counts.records + 1 }
  refine ⟨⟨b', (Collector.judge policy n batch).1⟩, ?_, rfl⟩
  simp only [batches, Collector.offer, h, Collector.judgeClosed, Except.map,
    judge_counts policy n, handedOut, n]

theorem batches_groupwise (policy : GracePolicy) :
    (batches policy).Groupwise .start Record.sortKey Record.upload
      (handedOut policy)
      (fun last rows c => c.batcher.After last rows) where
  finish_start := rfl
  offer_start r := by
    obtain ⟨b', hpush, hb'⟩ := push_start r
    have hstart : Collector.start.batcher.push r = .ok (b', none) := hpush
    obtain ⟨c', hoffer, rfl⟩ := offer_of_push_none policy hstart
    exact ⟨c', hoffer, hb'⟩
  offer_same last rows c r hc hle hu := by
    obtain ⟨b', hpush, hb'⟩ := push_of_same hc hle hu
    obtain ⟨c', hoffer, rfl⟩ := offer_of_push_none policy hpush
    exact ⟨c', hoffer, hb'⟩
  offer_other last rows c r hc hle hu := by
    obtain ⟨b', hpush, hb'⟩ := push_of_other hc hle hu
    obtain ⟨c', hoffer, rfl⟩ := offer_of_push_some policy hpush
    exact ⟨c', hoffer, hb'⟩
  finish_after last rows c hc := by
    simp only [batches, Collector.finish, Batcher.finish, hc.current,
      Collector.judgeClosed, judge_counts policy c.counts, handedOut]

/-- The uploads of records, in the order in which they come first. -/
abbrev uploads (records : List Record) : List Uuid :=
  Stream.names Record.upload records

/-- The records of an upload, in their order. -/
abbrev recordsOf (upload : Uuid) (records : List Record) : List Record :=
  Stream.rowsOf Record.upload upload records

theorem cleanups_handedOut_eq (upload : Uuid) :
    (handedOut policy upload (recordsOf upload records)).flatMap
        Verified.cleanups =
      cleanupsOf policy (recordsOf upload records) := by
  refine cleanups_judge_eq ?_ {}
  intro r hr
  exact (Stream.mem_rowsOf.1 hr).2

/--
A run over a stream in order cleans up after one upload after the other: the
uploads rise, they are those of the records, and each gives the cleanups of its
own records.
-/
theorem run_eq_cleanups
    (policy : GracePolicy) (h : Stream.InOrder Record.sortKey records) :
    ∃ ids : List Uuid,
      (ids.Pairwise fun a b => compare a b = .lt) ∧
      (∀ u, u ∈ ids ↔ ∃ r ∈ records, r.upload = u) ∧
      ((collector policy).run .start records).2 =
        .ok (ids.flatMap fun u => cleanupsOf policy (recordsOf u records)) := by
  refine ⟨uploads records, Stream.pairwise_names uploads_follow_keys h,
    fun _ => Stream.mem_names, ?_⟩
  rw [collector, Stream.Engine.run_thenEach,
    (batches_groupwise policy).run_eq_names uploads_follow_keys h]
  simp only [Except.map, List.flatMap_assoc, cleanups_handedOut_eq]

end Run

section Sample

/-- An upload whose id repeats one digit. -/
def sampleUpload (digit : Fin 16) : Uuid :=
  ⟨List.replicate 32 digit, List.length_replicate⟩

/-- The record that an upload was committed at a second. -/
def sampleFinalizing (digit : Fin 16) (second : Int) : Record :=
  .finalizing ⟨sampleUpload digit, "x", "s1", .wholeSecond second, .commit⟩

/-- A directory or part of the first upload. -/
def sampleLive (key : String) (kind : LiveKind) : Record :=
  .live ⟨sampleUpload 1, key, .wholeSecond 2, kind⟩

/-- A finished upload, one that was finalized twice, and a recent one. -/
def sampleRecords : List Record :=
  [sampleFinalizing 1 1, sampleLive "a/u" .directory, sampleLive "a/u/0" .part,
    sampleLive "a/u/1" .part, sampleFinalizing 2 1, sampleFinalizing 2 3,
    sampleFinalizing 3 95]

/-- In the sample, the first upload is cleaned up, and no other. -/
theorem cleanups_of_sample :
    Stream.InOrder Record.sortKey sampleRecords ∧
      ∃ ids : List Uuid,
        (∀ u, u ∈ ids ↔ ∃ r ∈ sampleRecords, r.upload = u) ∧
        (ids.flatMap fun u => cleanupsOf ⟨.wholeSecond 100, 10000000000⟩
            (recordsOf u sampleRecords)) =
          [sampleLive "a/u/0" .part, sampleLive "a/u/1" .part,
            sampleLive "a/u" .directory, sampleFinalizing 1 1] := by
  have h : Stream.InOrder Record.sortKey sampleRecords := by decide
  obtain ⟨ids, _, hids, hr⟩ :=
    run_eq_cleanups ⟨.wholeSecond 100, 10000000000⟩ h
  refine ⟨h, ids, hids, ?_⟩
  exact (Except.ok.inj hr).symm

end Sample

end Upload
end Reclaim
