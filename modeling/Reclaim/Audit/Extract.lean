import Reclaim.Audit.Row
import Reclaim.Dump.Row

/-!
# Expected replicas in dumps
-/

namespace Reclaim
namespace Audit
namespace Row

/-- The replicas that the metadata of an object places, one for each location. -/
def ofMetadata (m : Metadata) : Except Defect (List Row) :=
  if m.isObject then
    match m.objectId with
    | none => .error (.objectWithoutId m.key)
    | some objectId =>
        .ok (m.locations.map fun l =>
          .expected objectId l.storageId (m.owner.getD "") m.key)
  else
    .ok []

/-- The expected replicas that a row of a dump gives. -/
def ofDump (row : Dump.Row) : Except Defect (List Row) :=
  if row.table? = some Dump.metadataTable then do
    let m ← row.metadata
    ofMetadata m
  else
    .ok []

end Row
end Audit
end Reclaim
