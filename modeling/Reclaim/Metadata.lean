import Reclaim.Defect
import Reclaim.Json.Equality
import Reclaim.Json.Printer
import Reclaim.Json.Record

/-!
# Object metadata

What a metadata shard knows of an object or a directory.  The metadata of a
table row is an object, or a text that writes one; fields that are not modelled
are ignored.  Metadata is written with all its fields in a fixed order, absent
ones as null.
-/

namespace Reclaim

/-- A place where a storage node holds a replica. -/
structure Location where
  datacenter : Option String
  storageId : String
  serverUuid : Option String
  zoneUuid : Option String
  deriving DecidableEq

namespace Location

/-- A location of which some fields have been read. -/
structure Draft where
  datacenter : Option (Option String) := none
  storageId : Option String := none
  serverUuid : Option (Option String) := none
  zoneUuid : Option (Option String) := none

/-- The fields in their order. -/
def fields : List (Json.Field Draft) :=
  [⟨"datacenter",
      (Json.Codec.optional Json.Codec.text).map fun x d =>
        { d with datacenter := some x },
      (·.datacenter.isSome), true⟩,
    ⟨"manta_storage_id",
      Json.Codec.text.map fun x d => { d with storageId := some x },
      (·.storageId.isSome), false⟩,
    ⟨"server_uuid",
      (Json.Codec.optional Json.Codec.text).map fun x d =>
        { d with serverUuid := some x },
      (·.serverUuid.isSome), true⟩,
    ⟨"zone_uuid",
      (Json.Codec.optional Json.Codec.text).map fun x d =>
        { d with zoneUuid := some x },
      (·.zoneUuid.isSome), true⟩]

/-- The location that a draft describes. -/
def ofDraft (d : Draft) : Except Json.Fault Location := do
  let storageId ← Json.Codec.required "manta_storage_id" d.storageId
  .ok ⟨d.datacenter.join, storageId, d.serverUuid.join, d.zoneUuid.join⟩

/-- Reads a location. -/
def codec : Json.Codec Location :=
  Json.Codec.record fields {} ofDraft

/-- A text or null. -/
def textOrNull : Option String → Json.Value
  | some s => .string s
  | none => .null

/-- The fields with their values. -/
def members (l : Location) : Json.Members :=
  [("datacenter", textOrNull l.datacenter),
    ("manta_storage_id", .string l.storageId),
    ("server_uuid", textOrNull l.serverUuid),
    ("zone_uuid", textOrNull l.zoneUuid)]

end Location

/-- The metadata of an object or a directory. -/
structure Metadata where
  /-- The path, from the owner's uuid on. -/
  key : String
  /-- What lies at the path: an object or a directory. -/
  type : String
  objectId : Option String
  owner : Option String
  /-- The places of the replicas. -/
  locations : List Location
  /-- When the object was changed, in milliseconds since the epoch. -/
  mtime : Option Int
  /-- The upload that a directory belongs to. -/
  upload : Option Json.Value
  deriving DecidableEq

namespace Metadata

/-- Metadata of which some fields have been read. -/
structure Draft where
  key : Option String := none
  type : Option String := none
  objectId : Option (Option String) := none
  owner : Option (Option String) := none
  locations : Option (List Location) := none
  mtime : Option (Option Int) := none
  upload : Option (Option Json.Value) := none

/-- The fields in their order. -/
def fields : List (Json.Field Draft) :=
  [⟨"key",
      Json.Codec.text.map fun x d => { d with key := some x },
      (·.key.isSome), false⟩,
    ⟨"type",
      Json.Codec.text.map fun x d => { d with type := some x },
      (·.type.isSome), false⟩,
    ⟨"objectId",
      (Json.Codec.optional Json.Codec.text).map fun x d =>
        { d with objectId := some x },
      (·.objectId.isSome), true⟩,
    ⟨"owner",
      (Json.Codec.optional Json.Codec.text).map fun x d =>
        { d with owner := some x },
      (·.owner.isSome), true⟩,
    ⟨"sharks",
      (Json.Codec.list Location.codec).map fun x d =>
        { d with locations := some x },
      (·.locations.isSome), true⟩,
    ⟨"mtime",
      (Json.Codec.optional Json.Codec.signed).map fun x d =>
        { d with mtime := some x },
      (·.mtime.isSome), true⟩,
    ⟨"upload",
      (Json.Codec.optional Json.Codec.value).map fun x d =>
        { d with upload := some x },
      (·.upload.isSome), true⟩]

/-- The metadata that a draft describes. -/
def ofDraft (d : Draft) : Except Json.Fault Metadata := do
  let key ← Json.Codec.required "key" d.key
  let type ← Json.Codec.required "type" d.type
  .ok ⟨key, type, d.objectId.join, d.owner.join, d.locations.getD [],
    d.mtime.join, d.upload.join⟩

/-- Reads metadata. -/
def codec : Json.Codec Metadata :=
  Json.Codec.record fields {} ofDraft

/-- Reads the metadata of a table row, which may be a text that writes it. -/
def ofValue (v : Json.Value) : Except Defect Metadata :=
  let read :=
    match v with
    | .string s => codec.ofText s
    | v => codec.ofValue v
  read.mapError .invalidMetadata

/-- The metadata describes an object. -/
def isObject (m : Metadata) : Bool :=
  m.type = "object"

/-- The metadata describes a directory. -/
def isDirectory (m : Metadata) : Bool :=
  m.type = "directory"

/-- The fields with their values. -/
def members (m : Metadata) : Json.Members :=
  [("key", .string m.key),
    ("type", .string m.type),
    ("objectId", Location.textOrNull m.objectId),
    ("owner", Location.textOrNull m.owner),
    ("sharks", .array (m.locations.map fun l => .object l.members)),
    ("mtime",
      match m.mtime with
      | some n => .number (.integer n)
      | none => .null),
    ("upload", m.upload.getD .null)]

/-- The text of metadata. -/
def text (m : Metadata) : String :=
  Json.Value.text (.object m.members)

end Metadata
end Reclaim
