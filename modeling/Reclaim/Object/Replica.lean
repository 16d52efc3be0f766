import Reclaim.Metadata
import Reclaim.Time.Timestamp
import Reclaim.Text.Split

/-!
# Replicas of dead objects

The payload of a tombstone lists the places where storage nodes hold replicas
of the object.  What is to be done about a dead object is to delete its
tombstone from the metadata shard and to remove its replicas.
-/

namespace Reclaim
namespace Object

/-- A replica of a dead object. -/
structure Replica where
  objectId : String
  storageId : String
  serverUuid : Option String
  zoneUuid : Option String
  owner : String
  date : Time.Instant
  deriving DecidableEq

namespace Replica

/-- The replicas that the payload of a tombstone lists. -/
def ofPayload (objectId : String) (date : Time.Instant)
    (payload : Json.Value) : Except Defect (List Replica) :=
  match payload.get? "_value" with
  | none => .error .payloadWithoutValue
  | some v => do
      let metadata ← Metadata.ofValue v
      match metadata.owner with
      | none => .error (.objectWithoutOwner objectId)
      | some owner =>
          .ok (metadata.locations.map fun l =>
            ⟨objectId, l.storageId, l.serverUuid, l.zoneUuid, owner, date⟩)

end Replica

/-- A cleanup of a dead object. -/
inductive Action
  /-- Delete the tombstone from its metadata shard. -/
  | deleteTombstone (objectId : String) (date : Time.Instant) (shard : String)
  /-- Remove a replica from its storage node. -/
  | removeReplica (replica : Replica)
  deriving DecidableEq

namespace Action

/-- The line of an action. -/
def line : Action → String
  | deleteTombstone objectId date shard =>
      Text.join '\t' ["moray", objectId, date.text, shard]
  | removeReplica r =>
      Text.join '\t' ["mako", r.objectId, r.storageId,
        r.serverUuid.getD "", r.zoneUuid.getD "", r.owner]

end Action
end Object
end Reclaim
