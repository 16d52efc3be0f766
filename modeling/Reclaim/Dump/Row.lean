import Reclaim.Metadata
import Reclaim.Time.Timestamp

/-!
# Dump rows

A row of a table dump has the columns of its table as members, and the name of
the table under `__table`.  Rows of the table `manta` hold the metadata of what
exists, rows of `manta_delete_log` that of deleted objects, and rows of
`manta_uploads` say which uploads are committed or aborted.
-/

namespace Reclaim
namespace Dump

/-- The table of objects and directories. -/
def metadataTable : String := "manta"

/-- The table of deleted objects. -/
def deletionTable : String := "manta_delete_log"

/-- The table of committed and aborted uploads. -/
def uploadTable : String := "manta_uploads"

/-- A row of a table dump: its members by name. -/
abbrev Row := Json.Members

namespace Row

/-- The member that names the table. -/
def tableMember : String := "__table"

/-- The text of a member that is a string. -/
def text? (r : Row) (name : String) : Option String :=
  (Json.getMember? name r).bind Json.Value.string?

/-- The table of a row. -/
def table? (r : Row) : Option String :=
  r.text? tableMember

/-- What the date of a row is read from: a string, or the text of a number. -/
def dateText : Option Json.Value → Except Defect String
  | some (.string s) => .ok s
  | some (.number n) => .ok (String.ofList (Json.printNumber n))
  | _ => .error .rowWithoutMtime

/-- The date of a row. -/
def date (r : Row) : Except Defect Time.Instant := do
  let text ← dateText (Json.getMember? "_mtime" r)
  match Time.Instant.parse? text with
  | some t => .ok t
  | none => .error (.invalidRowMtime text)

/-- The metadata of a row. -/
def metadata (r : Row) : Except Defect Metadata :=
  match Json.getMember? "_value" r with
  | some v => Metadata.ofValue v
  | none => .error .rowWithoutValue

end Row

/-- Where and when the dumps were taken. -/
structure Origin where
  /-- The metadata shard that a dump was taken from. -/
  shard : String
  /-- The time of the earliest dump among all shards. -/
  earliest : Option Time.Instant
  deriving DecidableEq

end Dump
end Reclaim
