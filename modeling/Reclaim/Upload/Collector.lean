import Reclaim.Stream.Engine
import Reclaim.Upload.Batch

/-!
# Collecting finished uploads

The directory and the parts of an upload are cleaned up when the upload has
been committed or aborted for longer than the grace period.  The collector
hands out the batches of such uploads.  Batches that cannot be verified, that
have no finalizing record or a recent one are counted and left alone.

Main result: `batches_judge_eq` says that every batch is counted once.
-/

namespace Reclaim
namespace Upload

/-- What has happened to the batches of a stream. -/
structure Counts where
  records : Nat := 0
  batches : Nat := 0
  invalid : Nat := 0
  unfinalized : Nat := 0
  withinGrace : Nat := 0
  eligible : Nat := 0
  deriving DecidableEq

/-- The batch that is open, and what has happened so far. -/
structure Collector where
  batcher : Batcher
  counts : Counts

namespace Collector

/-- No record has been seen. -/
def start : Collector := ⟨.start, {}⟩

/-- Counts a closed batch, and hands it out if it may be cleaned up. -/
def judge (policy : GracePolicy) (n : Counts) (batch : Batch) :
    Counts × Option Verified :=
  let n := { n with batches := n.batches + 1 }
  match batch.verify with
  | .error _ => ({ n with invalid := n.invalid + 1 }, none)
  | .ok v =>
      if v.finalizing.isNone then
        ({ n with unfinalized := n.unfinalized + 1 }, none)
      else if v.isEligible policy then
        ({ n with eligible := n.eligible + 1 }, some v)
      else
        ({ n with withinGrace := n.withinGrace + 1 }, none)

/-- Does the same for a batch that may have been closed. -/
def judgeClosed (policy : GracePolicy) (n : Counts) :
    Option Batch → Counts × Option Verified
  | none => (n, none)
  | some batch => judge policy n batch

/-- Takes a record, and hands out the batch it closes if that may be cleaned up. -/
def offer (policy : GracePolicy) (c : Collector) (r : Record) :
    Collector × Except Fault (Option Verified) :=
  let n := { c.counts with records := c.counts.records + 1 }
  match c.batcher.push r with
  | .error fault => ({ c with counts := n }, .error fault)
  | .ok (batcher, closed) =>
      let (n, batch) := judgeClosed policy n closed
      (⟨batcher, n⟩, .ok batch)

/-- Closes the last batch. -/
def finish (policy : GracePolicy) (c : Collector) :
    Collector × Option Verified :=
  let (batcher, closed) := c.batcher.finish
  let (n, batch) := judgeClosed policy c.counts closed
  (⟨batcher, n⟩, batch)

/-- Every batch is counted once as a batch and once by what comes of it. -/
theorem batches_judge_eq (policy : GracePolicy) (n : Counts) (batch : Batch)
    (h : n.batches =
      n.invalid + n.unfinalized + n.withinGrace + n.eligible) :
    let m := (judge policy n batch).1
    m.batches = m.invalid + m.unfinalized + m.withinGrace + m.eligible := by
  simp only [judge]
  split
  · simp only
    omega
  · split
    · simp only
      omega
    · split <;> (simp only; omega)

end Collector

/-- Hands out the batches of the uploads that may be cleaned up. -/
def batches (policy : GracePolicy) :
    Stream.Engine Collector Record Verified where
  offer c r :=
    let (c, answer) := c.offer policy r
    (c, answer.map Option.toList)
  finish c :=
    let (c, batch) := c.finish policy
    (c, batch.toList)

/-- Hands out what is to be cleaned up. -/
def collector (policy : GracePolicy) : Stream.Engine Collector Record Record :=
  (batches policy).thenEach Verified.cleanups

end Upload
end Reclaim
