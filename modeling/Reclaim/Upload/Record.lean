import Reclaim.Defect
import Reclaim.Stream.Key
import Reclaim.Text.Split

/-!
# Records of multipart uploads

An upload has a finalizing record once it is committed or aborted, a directory
and a record for each part.  Records are sorted by upload, then finalizing
record, directory and parts, then by date and key.
-/

namespace Reclaim
namespace Upload

/-- How an upload ended. -/
inductive Outcome
  | commit
  | abort
  deriving DecidableEq, Repr

namespace Outcome

/-- The word for an outcome. -/
def text : Outcome → String
  | commit => "commit"
  | abort => "abort"

/-- Reads the word for an outcome. -/
def parse (s : String) : Except Defect Outcome :=
  if s = "commit" then .ok commit
  else if s = "abort" then .ok abort
  else .error (.unknownOutcome s)

end Outcome

/-- The record that an upload is committed or aborted. -/
structure Finalizing where
  upload : Uuid
  /-- The upload id, a colon and the path of the object. -/
  key : String
  shard : String
  date : Time.Instant
  outcome : Outcome
  deriving DecidableEq

namespace Finalizing

/-- The owner: the first segment of the path in the key. -/
def owner? (r : Finalizing) : Option Uuid :=
  match Text.cut? ':' r.key.toList with
  | none => none
  | some (_, path) =>
      Uuid.parse? (String.ofList
        ((Text.trimStart '/' path).takeWhile (· != '/')))

end Finalizing

/-- What lies at the path of a live record. -/
inductive LiveKind
  | directory
  | part
  deriving DecidableEq, Repr

/-- A directory or part of an upload that still exists. -/
structure LiveRecord where
  upload : Uuid
  /-- The path, from the owner's uuid on. -/
  key : String
  date : Time.Instant
  kind : LiveKind
  deriving DecidableEq

/-- A record of an upload. -/
inductive Record
  | finalizing (r : Finalizing)
  | live (r : LiveRecord)
  deriving DecidableEq

namespace Record

/-- The upload of a record. -/
def upload : Record → Uuid
  | finalizing r => r.upload
  | live r => r.upload

/-- The date of a record. -/
def date : Record → Time.Instant
  | finalizing r => r.date
  | live r => r.date

/-- The key of a record. -/
def key : Record → String
  | finalizing r => r.key
  | live r => r.key

/-- Finalizing records come first, then directories, then parts. -/
def tag : Record → Nat
  | finalizing _ => 0
  | live ⟨_, _, _, .directory⟩ => 1
  | live ⟨_, _, _, .part⟩ => 2

/-- The position in the sorted stream. -/
def sortKey (r : Record) : Uuid × Nat × Time.Instant × String :=
  (r.upload, r.tag, r.date, r.key)

/-- The fields of the line of a record. -/
def fields (r : Record) : List String :=
  [r.upload.text, toString r.tag, r.date.text, r.key] ++
    match r with
    | finalizing f => [f.shard, f.outcome.text]
    | live _ => []

/-- The line of a record. -/
def line (r : Record) : String :=
  Text.join '\t' r.fields

/-- Reads the fields after the date; the key of a finalizing record may contain tabs. -/
def parseRest (upload : Uuid) (date : Time.Instant) (tag rest : String) :
    Except Defect Record :=
  if tag = "0" then
    match Text.fieldsAtMostFromEnd '\t' 3 rest with
    | [key, shard, outcome] => do
        let outcome ← Outcome.parse outcome
        .ok (.finalizing ⟨upload, key, shard, date, outcome⟩)
    | _ => .error .incompleteFinalizing
  else if tag = "1" then .ok (.live ⟨upload, rest, date, .directory⟩)
  else if tag = "2" then .ok (.live ⟨upload, rest, date, .part⟩)
  else .error (.unknownTag tag)

/-- Reads the line of a record. -/
def parse (line : String) : Except Defect Record :=
  match Text.fieldsAtMost '\t' 4 line with
  | [upload, tag, date, rest] =>
      match Uuid.parse? upload with
      | none => .error (.invalidUploadId upload)
      | some u =>
          match Time.Instant.parse? date with
          | none => .error (.invalidTimestamp date)
          | some t => parseRest u t tag rest
  | fields => .error (.tooFewFields 4 fields.length)

end Record
end Upload
end Reclaim
