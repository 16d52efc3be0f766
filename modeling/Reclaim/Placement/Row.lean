import Reclaim.Metadata
import Reclaim.Text.Split

/-!
# Rows for the placement of replicas

An object with its metadata, which lists where its replicas are, and the shard
that holds the metadata.
-/

namespace Reclaim
namespace Placement

/-- An object whose replicas are to be placed. -/
structure Row where
  objectId : String
  shard : String
  metadata : Metadata
  deriving DecidableEq

namespace Row

/-- The line of a row. -/
def line (r : Row) : String :=
  Text.join '\t' [r.objectId, r.shard, r.metadata.text]

/-- Reads the line of a row. -/
def parse (line : String) : Except Defect Row :=
  match Text.fieldsAtMost '\t' 3 line with
  | [objectId, shard, metadata] =>
      match Metadata.codec.ofText metadata with
      | .ok m => .ok ⟨objectId, shard, m⟩
      | .error e => .error (.invalidRowMetadata e)
  | fields => .error (.fieldCount 3 fields.length)

end Row
end Placement
end Reclaim
