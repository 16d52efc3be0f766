import Reclaim.Cruft.Row
import Reclaim.Dump.Row

/-!
# References to objects in dumps
-/

namespace Reclaim
namespace Cruft
namespace Row

/-- The reference of an object with metadata; an object without id has none. -/
def ofMetadata (m : Metadata) : List Row :=
  match m.objectId with
  | some objectId => if m.isObject then [.reference objectId] else []
  | none => []

/-- The references that a row of a dump gives. -/
def ofDump (row : Dump.Row) : Except Defect (List Row) :=
  if row.table? = some Dump.metadataTable then do
    let m ← row.metadata
    .ok (ofMetadata m)
  else
    .ok []

end Row
end Cruft
end Reclaim
