import Reclaim.Dump.Row
import Reclaim.Upload.Path
import Reclaim.Upload.Record

/-!
# Records of uploads in dumps

A row of metadata whose key is the path of an upload gives a live record: the
path of a part that is an object, or the path of the upload itself if it is a
directory that belongs to an upload.  A row of the upload table gives a
finalizing record.
-/

namespace Reclaim
namespace Upload
namespace Record

/-- What lies at the path of an upload with this metadata. -/
def kindAt? (path : Path) (m : Metadata) : Option LiveKind :=
  match path.part with
  | some _ => if m.isObject then some .part else none
  | none =>
      if m.isDirectory ∧ m.upload.isSome then some .directory else none

/-- The live record of a row with metadata. -/
def liveOfDump (row : Dump.Row) : Except Defect (List Record) := do
  let m ← row.metadata
  match Path.parse? m.key with
  | none => .ok []
  | some path =>
      match Uuid.parse? (String.ofList path.upload) with
      | none => .error (.invalidUploadPath m.key)
      | some upload =>
          match kindAt? path m with
          | none => .ok []
          | some kind => do
              let date ← row.date
              .ok [.live ⟨upload, m.key, date, kind⟩]

/-- The outcome that the value of a row of the upload table states. -/
def outcomeOf (value : Json.Value) : Except Defect Outcome :=
  match (value.get? "finalizingType").bind Json.Value.string? with
  | some s => Outcome.parse s
  | none => .error .finalizingWithoutType

/-- The upload that the value states, or else the key before its colon. -/
def uploadIdText (key : String) (value : Json.Value) : String :=
  match (value.get? "uploadId").bind Json.Value.string? with
  | some s => s
  | none => String.ofList (key.toList.takeWhile (· != ':'))

/-- The finalizing record of a row of the upload table. -/
def finalizingOfDump (origin : Dump.Origin) (row : Dump.Row) :
    Except Defect (List Record) :=
  match row.text? "_key", Json.getMember? "_value" row with
  | none, _ => .error .finalizingWithoutKey
  | some _, none => .error .finalizingWithoutValue
  | some key, some value => do
      let outcome ← outcomeOf value
      let text := uploadIdText key value
      match Uuid.parse? text with
      | none => .error (.invalidUploadId text)
      | some upload => do
          let date ← row.date
          .ok [.finalizing ⟨upload, key, origin.shard, date, outcome⟩]

/-- The records of uploads that a row of a dump gives. -/
def ofDump (origin : Dump.Origin) (row : Dump.Row) :
    Except Defect (List Record) :=
  if row.table? = some Dump.metadataTable then liveOfDump row
  else if row.table? = some Dump.uploadTable then finalizingOfDump origin row
  else .ok []

end Record
end Upload
end Reclaim
