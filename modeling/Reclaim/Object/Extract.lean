import Reclaim.Dump.Row
import Reclaim.Object.Row

/-!
# Histories of objects in dumps

A row of metadata says that its object was live at the date of the row.  A row
of the deletion table is a tombstone, unless it is younger than the earliest
dump: what was written after that dump may be missing from it.
-/

namespace Reclaim
namespace Object
namespace Row

/-- The live row of an object with metadata. -/
def liveOfDump (row : Dump.Row) : Except Defect (List Row) := do
  let m ← row.metadata
  if m.isObject then
    match m.objectId with
    | none => .error (.objectWithoutId m.key)
    | some objectId => do
        let date ← row.date
        .ok [⟨objectId, date, .live⟩]
  else
    .ok []

/-- The object of a row of the deletion table. -/
def deletedId (row : Dump.Row) : Except Defect String :=
  match row.text? "objectid" with
  | some objectId => .ok objectId
  | none => do
      let m ← row.metadata
      match m.objectId with
      | some objectId => .ok objectId
      | none => .error .deletionWithoutId

/-- The date is not later than the earliest dump. -/
def isCovered (origin : Dump.Origin) (date : Time.Instant) : Bool :=
  match origin.earliest with
  | some earliest => compare date earliest ≠ .gt
  | none => true

/-- The tombstone that a row of the deletion table describes. -/
def deadOfDump (origin : Dump.Origin) (row : Dump.Row) :
    Except Defect (List Row) := do
  let date ← row.date
  if isCovered origin date then
    let objectId ← deletedId row
    .ok [⟨objectId, date, .dead (.object row) origin.shard⟩]
  else
    .ok []

/-- The rows of an object's history that a row of a dump gives. -/
def ofDump (origin : Dump.Origin) (row : Dump.Row) :
    Except Defect (List Row) :=
  if row.table? = some Dump.metadataTable then liveOfDump row
  else if row.table? = some Dump.deletionTable then deadOfDump origin row
  else .ok []

end Row
end Object
end Reclaim
