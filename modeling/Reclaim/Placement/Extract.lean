import Reclaim.Dump.Row
import Reclaim.Placement.Row

/-!
# Objects to be placed in dumps
-/

namespace Reclaim
namespace Placement
namespace Row

/-- The row of an object that has replicas. -/
def ofMetadata (shard : String) (m : Metadata) : Except Defect (List Row) :=
  if m.isObject ∧ ¬ m.locations.isEmpty then
    match m.objectId with
    | none => .error (.objectWithoutId m.key)
    | some objectId => .ok [⟨objectId, shard, m⟩]
  else
    .ok []

/-- The objects to be placed that a row of a dump gives. -/
def ofDump (origin : Dump.Origin) (row : Dump.Row) :
    Except Defect (List Row) :=
  if row.table? = some Dump.metadataTable then do
    let m ← row.metadata
    ofMetadata origin.shard m
  else
    .ok []

end Row
end Placement
end Reclaim
