import Reclaim.Fault
import Reclaim.Grace
import Reclaim.Stream.Guard
import Reclaim.Upload.Record

/-!
# Batches of upload records

The records of an upload follow each other in a sorted stream and form its
batch.  A batch that has been handed out is closed: a record of its upload that
comes later is a fault of the stream.

A batch is verified before anything is done about it.  It may hold records of
its own upload only, one finalizing record and one directory at most.

Main result: `push_records` says that no record is lost.
-/

namespace Reclaim
namespace Upload

/-- The records of an upload in their order. -/
structure Batch where
  upload : Uuid
  records : List Record
  deriving DecidableEq

/-- The batch that is open, and the uploads of those that are closed. -/
structure Batcher where
  guard : Stream.Guard (Uuid × Nat × Time.Instant × String)
  current : Option Batch
  closed : List Uuid

namespace Batcher

/-- No record has been seen. -/
def start : Batcher := ⟨.start, none, []⟩

/-- Closes the batch that is open. -/
def finish (b : Batcher) : Batcher × Option Batch :=
  match b.current with
  | none => (b, none)
  | some batch =>
      ({ b with current := none, closed := batch.upload :: b.closed },
        some batch)

/-- Takes a record that may be taken into its batch, and hands out the batch it closes. -/
def take (b : Batcher) (r : Record) : Batcher × Option Batch :=
  match b.current with
  | none => ({ b with current := some ⟨r.upload, [r]⟩ }, none)
  | some batch =>
      if batch.upload = r.upload then
        ({ b with
            current := some { batch with records := batch.records ++ [r] } },
          none)
      else
        ({ b with
            current := some ⟨r.upload, [r]⟩
            closed := batch.upload :: b.closed },
          some batch)

/-- Takes a record unless its batch is closed or it comes before the last record. -/
def push (b : Batcher) (r : Record) : Except Fault (Batcher × Option Batch) :=
  if r.upload ∈ b.closed then
    .error (.uploadReappeared r.upload)
  else
    match b.guard.accept r.sortKey with
    | .error fault => .error fault
    | .ok guard => .ok ({ b with guard := guard }.take r)

/-- The records of the batch that is open. -/
def openRecords (b : Batcher) : List Record :=
  match b.current with
  | some batch => batch.records
  | none => []

/-- The records of a batch that may have been handed out. -/
def handedOut : Option Batch → List Record
  | some batch => batch.records
  | none => []

/-- A record that is taken comes after all others, and no record is lost. -/
theorem push_records
    {b b' : Batcher} {r : Record} {out : Option Batch}
    (h : b.push r = .ok (b', out)) :
    handedOut out ++ b'.openRecords = b.openRecords ++ [r] := by
  simp only [push] at h
  split at h
  · simp at h
  · split at h
    · simp at h
    · simp only [Except.ok.injEq, take] at h
      split at h
      · next hc =>
          simp only [Prod.mk.injEq] at h
          obtain ⟨rfl, rfl⟩ := h
          simp [handedOut, openRecords, hc]
      · next batch hc =>
          split at h
          all_goals
            simp only [Prod.mk.injEq] at h
            obtain ⟨rfl, rfl⟩ := h
            simp [handedOut, openRecords, hc]

end Batcher

/-- A batch whose records fit together. -/
structure Verified where
  upload : Uuid
  finalizing : Option Finalizing := none
  directory : Option LiveRecord := none
  parts : List LiveRecord := []
  deriving DecidableEq

namespace Verified

/-- Adds a record if it fits the records before it. -/
def add (v : Verified) (r : Record) : Except BatchDefect Verified :=
  if r.upload = v.upload then
    match r with
    | .finalizing f =>
        if v.finalizing.isSome then .error .secondFinalizing
        else .ok { v with finalizing := some f }
    | .live l =>
        match l.kind with
        | .directory =>
            if v.directory.isSome then .error .secondDirectory
            else .ok { v with directory := some l }
        | .part => .ok { v with parts := v.parts ++ [l] }
  else
    .error (.foreignRecord r.upload)

/-- The date of the finalizing record is past the grace period. -/
def isEligible (policy : GracePolicy) (v : Verified) : Bool :=
  match v.finalizing with
  | some f => policy.isExpired f.date
  | none => false

/-- What is cleaned up, in this order: the parts, the directory, the finalizing record. -/
def cleanups (v : Verified) : List Record :=
  match v.finalizing with
  | none => []
  | some f =>
      v.parts.map .live ++ v.directory.toList.map .live ++ [.finalizing f]

end Verified

/-- Verifies a batch; the first record that does not fit is the fault. -/
def Batch.verify (b : Batch) : Except Fault Verified :=
  (b.records.foldlM Verified.add { upload := b.upload }).mapError
    (.invalidBatch b.upload)

end Upload
end Reclaim
