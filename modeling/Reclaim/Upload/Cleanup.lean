import Reclaim.Store.Records
import Reclaim.Upload.Collector
import Reclaim.Upload.Removal

/-!
# Cleaning up uploads

For each batch that is handed out, the account of the owner is resolved, the
parts are removed, then the directory, and last the finalizing record is
deleted from its shard.  A batch that fails before the last step is dropped, so
that its finalizing record stays and the next pass finds it again.
-/

namespace Reclaim
namespace Upload

/-- The bucket of the finalizing records. -/
def finalizingBucket : String := "manta_uploads"

/-- What has been done about batches. -/
structure Report where
  cleaned : Nat := 0
  dropped : Nat := 0
  removed : Nat := 0
  finalizingDeleted : Nat := 0
  finalizingFailed : Nat := 0
  deriving DecidableEq

/-- The owner of a batch and the finalizing record that names it. -/
def ownerOf (v : Verified) : Except Fault Uuid :=
  match v.finalizing with
  | none => .error (.invalidBatch v.upload .noFinalizing)
  | some f =>
      match f.owner? with
      | none => .error (.invalidBatch v.upload (.noOwner f.key))
      | some owner => .ok owner

/-- Removes the parts of a batch, then its directory. -/
def removeOwned (o : RemovalOptions) (s : Store.Services) (v : Verified)
    (owner : Uuid) (login : String) : Store.Services × Except Fault Nat :=
  match removeRecords o s v.upload owner login v.parts with
  | (s, .error fault) => (s, .error fault)
  | (s, .ok parts) =>
      let (s, answer) :=
        removeRecords o s v.upload owner login v.directory.toList
      (s, answer.map (parts + ·))

/-- Resolves the account of a batch and removes its live records. -/
def removeLive (o : RemovalOptions) (s : Store.Services) (v : Verified) :
    Store.Services × Except Fault Nat :=
  match ownerOf v with
  | .error fault => (s, .error fault)
  | .ok owner =>
      match s.resolve owner with
      | (s, .error e) => (s, .error (.unresolvedAccount owner e))
      | (s, .ok login) => removeOwned o s v owner login

/-- Deletes the finalizing record of a batch; one that is gone already counts as deleted. -/
def deleteFinalizing (s : Store.Services) (f : Finalizing) :
    Store.Services × Bool :=
  match s.onShard f.shard fun s =>
      s.deleteRecord ⟨f.shard, finalizingBucket, f.key⟩ with
  | (s, .ok ()) => (s, true)
  | (s, .error (.notFound _)) => (s, true)
  | (s, .error _) => (s, false)

/-- Cleans up one batch. -/
def clean (o : RemovalOptions) (s : Store.Services) (n : Report)
    (v : Verified) : Store.Services × Report :=
  match removeLive o s v with
  | (s, .error _) => (s, { n with dropped := n.dropped + 1 })
  | (s, .ok removed) =>
      let n :=
        { n with cleaned := n.cleaned + 1, removed := n.removed + removed }
      match v.finalizing with
      | none => (s, n)
      | some f =>
          match deleteFinalizing s f with
          | (s, true) =>
              (s, { n with finalizingDeleted := n.finalizingDeleted + 1 })
          | (s, false) =>
              (s, { n with finalizingFailed := n.finalizingFailed + 1 })

/-- Cleans up batches one after the other. -/
def cleanAll (o : RemovalOptions) (s : Store.Services) (n : Report)
    (batches : List Verified) : Store.Services × Report :=
  batches.foldl (fun (s, n) v => clean o s n v) (s, n)

/-- Feeds records and cleans up the batches they close, up to the first fault. -/
def cleanStream (o : RemovalOptions) (policy : GracePolicy)
    (s : Store.Services) (n : Report) (c : Collector) :
    List Record → Store.Services × Except Fault Report
  | [] =>
      let (_, batch) := c.finish policy
      let (s, n) := cleanAll o s n batch.toList
      (s, .ok n)
  | r :: rs =>
      match c.offer policy r with
      | (_, .error fault) => (s, .error fault)
      | (c, .ok batch) =>
          let (s, n) := cleanAll o s n batch.toList
          cleanStream o policy s n c rs

/-- Cleans up the uploads of a whole stream; what was done before a fault stands. -/
def cleanUp (o : RemovalOptions) (policy : GracePolicy) (s : Store.Services)
    (records : List Record) : Store.Services × Except Fault Report :=
  cleanStream o policy s {} .start records

end Upload
end Reclaim
