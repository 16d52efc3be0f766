import Reclaim.Listing
import Reclaim.Stream.Key

/-!
# Rows for the audit of replicas

A stored row says that a storage node holds a replica of an object, an expected
row that the metadata of the object places one there.  Rows are sorted by
object, the stored rows first, and by storage node.
-/

namespace Reclaim
namespace Audit

/-- A row of the audit. -/
inductive Row
  | stored (objectId storageId : String)
  | expected (objectId storageId owner key : String)
  deriving DecidableEq

namespace Row

/-- The object of a row. -/
def objectId : Row → String
  | stored objectId _ => objectId
  | expected objectId _ _ _ => objectId

/-- The position in the sorted stream. -/
def key : Row → String × Nat × String
  | stored objectId storageId => (objectId, 0, storageId)
  | expected objectId storageId _ _ => (objectId, 1, storageId)

/-- The storage node of a row. -/
def storageId : Row → String
  | stored _ storageId => storageId
  | expected _ storageId _ _ => storageId

/-- The line of a row. -/
def line : Row → String
  | stored objectId storageId => Text.join '\t' [objectId, "mako", storageId]
  | expected objectId storageId owner key =>
      Text.join '\t' [objectId, "moray", storageId, owner, key]

/-- The row of a file that a storage node lists. -/
def ofListing (l : Listing) : Row :=
  .stored l.objectId l.storageId

/-- Reads the line of a row; the key may contain tabs. -/
def parse (line : String) : Except Defect Row :=
  match Text.fieldsAtMost '\t' 5 line with
  | [objectId, kind, storageId] =>
      if kind = "mako" then .ok (.stored objectId storageId)
      else .error (.unrecognizedAuditRow line)
  | [objectId, kind, storageId, owner, key] =>
      if kind = "moray" then .ok (.expected objectId storageId owner key)
      else .error (.unrecognizedAuditRow line)
  | _ => .error (.unrecognizedAuditRow line)

end Row
end Audit
end Reclaim
