import Reclaim.Listing
import Reclaim.Stream.Key

/-!
# Rows for the search for cruft

A stored row says that a storage node holds a file of an object, a reference
that a metadata shard knows the object.  Rows are sorted by object, the stored
rows first and by storage node.
-/

namespace Reclaim
namespace Cruft

/-- A row of the search for cruft. -/
inductive Row
  | stored (objectId storageId owner : String) (date : Time.Instant)
  | reference (objectId : String)
  deriving DecidableEq

namespace Row

/-- The object of a row. -/
def objectId : Row → String
  | stored objectId _ _ _ => objectId
  | reference objectId => objectId

/-- The position in the sorted stream. -/
def key : Row → String × Nat × String
  | stored objectId storageId _ _ => (objectId, 0, storageId)
  | reference objectId => (objectId, 1, "")

/-- The line of a row. -/
def line : Row → String
  | stored objectId storageId owner date =>
      Text.join '\t' [objectId, "mako", storageId, owner, date.text]
  | reference objectId => Text.join '\t' [objectId, "moray"]

/-- The row of a file that a storage node lists. -/
def ofListing (l : Listing) : Row :=
  .stored l.objectId l.storageId l.owner l.date

/-- Reads the line of a row. -/
def parse (line : String) : Except Defect Row :=
  match Text.fields '\t' line with
  | [objectId, kind] =>
      if kind = "moray" then .ok (.reference objectId)
      else .error (.unrecognizedCruftRow line)
  | [objectId, kind, storageId, owner, date] =>
      if kind = "mako" then
        match Time.Instant.parse? date with
        | some t => .ok (.stored objectId storageId owner t)
        | none => .error (.invalidTimestamp date)
      else .error (.unrecognizedCruftRow line)
  | _ => .error (.unrecognizedCruftRow line)

end Row
end Cruft
end Reclaim
