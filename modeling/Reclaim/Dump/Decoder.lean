import Reclaim.Dump.Row
import Reclaim.Fault
import Reclaim.Text.Blank

/-!
# Decoding table dumps

A dump is a list of lines.  A header names a table and its columns; each entry
after it lists the values of one row.  An entry may also write a null as `\N`
and an object as the text of the object.

A decoder remembers the last header and counts lines.  A line that cannot be
read is a fault of that line alone.

Main result: `decodeLine_lines` says that every line is counted.
-/

namespace Reclaim
namespace Dump

/-- The table that a header names, and its columns. -/
structure Schema where
  table : String
  columns : List String
  deriving DecidableEq

namespace Schema

/-- A header of which some fields have been read. -/
structure Draft where
  table : Option String := none
  columns : Option (List String) := none

/-- The fields of a header. -/
def headerFields : List (Json.Field Draft) :=
  [⟨"name",
      Json.Codec.text.map fun x d => { d with table := some x },
      (·.table.isSome), false⟩,
    ⟨"keys",
      (Json.Codec.list Json.Codec.text).map fun x d =>
        { d with columns := some x },
      (·.columns.isSome), false⟩]

/-- The header that a draft describes. -/
def ofDraft (d : Draft) : Except Json.Fault Schema := do
  let table ← Json.Codec.required "name" d.table
  let columns ← Json.Codec.required "keys" d.columns
  .ok ⟨table, columns⟩

/-- Reads a header. -/
def codec : Json.Codec Schema :=
  Json.Codec.record headerFields {} ofDraft

end Schema

/-- The values of an entry. -/
def entryCodec : Json.Codec (List Json.Value) :=
  Json.Codec.record
    [⟨"entry",
      (Json.Codec.list Json.Codec.value).map fun x _ => some x,
      Option.isSome, false⟩]
    none
    (Json.Codec.required "entry")

/-- How an entry writes a null. -/
def nullText : String := "\\N"

/-- The value that an item of an entry stands for. -/
def decodeItem : Json.Value → Except Defect Json.Value
  | .string s =>
      if s = nullText then .ok .null
      else if s.toList.head? = some '\x7b' then
        (Json.parse s).mapError .invalidEmbedded
      else .ok (.string s)
  | v => .ok v

/-- The members of a row: the items under the names of their columns. -/
def decodeItems (row : Row) :
    List (String × Json.Value) → Except Defect Row
  | [] => .ok row
  | (column, item) :: r => do
      let v ← decodeItem item
      decodeItems (Json.setMember column v row) r

namespace Schema

/-- The row that an entry of the table writes. -/
def row (s : Schema) (values : List Json.Value) : Except Defect Row :=
  if values.length = s.columns.length then do
    let row ← decodeItems [] (s.columns.zip values)
    .ok (Json.setMember Row.tableMember (.string s.table) row)
  else
    .error (.columnCount values.length s.table s.columns.length)

end Schema

/-- What a line of a dump holds. -/
inductive Line
  | blank
  | header (schema : Schema)
  | row (row : Row)

namespace Line

/-- A value with these two members is a header. -/
def isHeader (v : Json.Value) : Bool :=
  (v.get? "keys").isSome && (v.get? "name").isSome

/-- The line that a value writes under the header before it. -/
def ofValue (schema : Option Schema) (v : Json.Value) : Except Defect Line :=
  if isHeader v then
    match Schema.codec.ofValue v with
    | .ok s => .ok (.header s)
    | .error e => .error (.invalidHeader e)
  else
    match schema with
    | none => .error .rowBeforeHeader
    | some s =>
        match entryCodec.ofValue v with
        | .error e => .error (.invalidEntry e)
        | .ok values => (s.row values).map .row

/-- Reads a line under the header before it. -/
def parse (schema : Option Schema) (s : String) : Except Defect Line :=
  let trimmed := Text.trim s
  if trimmed.isEmpty then .ok .blank
  else
    match Json.parse trimmed with
    | .error e => .error (.invalidJson e)
    | .ok v => ofValue schema v

end Line

/-- The last header, and how many lines, rows and faults there have been. -/
structure Decoder where
  schema : Option Schema := none
  lines : Nat := 0
  rows : Nat := 0
  faults : Nat := 0
  deriving DecidableEq

namespace Decoder

/-- Decodes one line; headers and blank lines give no row. -/
def decodeLine (d : Decoder) (line : String) :
    Decoder × Except Fault (Option Row) :=
  let d := { d with lines := d.lines + 1 }
  match Line.parse d.schema line with
  | .ok .blank => (d, .ok none)
  | .ok (.header s) => ({ d with schema := some s }, .ok none)
  | .ok (.row r) => ({ d with rows := d.rows + 1 }, .ok (some r))
  | .error e =>
      ({ d with faults := d.faults + 1 }, .error (.malformed d.lines e))

/-- Every line is counted. -/
theorem decodeLine_lines (d : Decoder) (line : String) :
    (d.decodeLine line).1.lines = d.lines + 1 := by
  simp only [decodeLine]
  split <;> rfl

end Decoder
end Dump
end Reclaim
