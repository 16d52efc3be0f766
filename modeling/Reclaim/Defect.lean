import Reclaim.Json.Fault
import Reclaim.Text.Integer
import Reclaim.Text.Utf8

/-!
# Defects of lines

What can be wrong with one line of a dump, a listing or a row stream, and the
wording of each defect.
-/

namespace Reclaim

/-- What is wrong with a line. -/
inductive Defect
  /-- The bytes are no text. -/
  | notUtf8 (fault : Text.Utf8.Fault)
  | tooFewFields (expected found : Nat)
  | fieldCount (expected found : Nat)
  | emptyObjectId
  | invalidTimestamp (text : String)
  | unexpectedRow (kind : String) (fields : Nat)
  | invalidPayload (fault : Json.Fault)
  | invalidRowMetadata (fault : Json.Fault)
  | unrecognizedCruftRow (line : String)
  | unrecognizedAuditRow (line : String)
  | invalidUploadId (text : String)
  | incompleteFinalizing
  | unknownOutcome (text : String)
  | unknownTag (text : String)
  | invalidMetadata (fault : Json.Fault)
  | payloadWithoutValue
  | objectWithoutOwner (objectId : String)
  | unexpectedPath (path : String)
  | invalidSize (text : String) (fault : Text.IntegerFault)
  | invalidMtime (text : String) (fault : Text.IntegerFault)
  | mtimeOutOfRange (seconds : Int)
  | invalidJson (fault : Json.Fault)
  | invalidHeader (fault : Json.Fault)
  | rowBeforeHeader
  | invalidEntry (fault : Json.Fault)
  | columnCount (values : Nat) (table : String) (columns : Nat)
  | invalidEmbedded (fault : Json.Fault)
  | rowWithoutMtime
  | invalidRowMtime (text : String)
  | rowWithoutValue
  | objectWithoutId (key : String)
  | deletionWithoutId
  | invalidUploadPath (key : String)
  | finalizingWithoutKey
  | finalizingWithoutValue
  | finalizingWithoutType
  | invalidNode (text : String)
  deriving DecidableEq, Repr

namespace Defect

/-- A text between back quotes. -/
def ticked (s : String) : String :=
  "`" ++ s ++ "`"

/-- The wording of a defect. -/
def message : Defect → String
  | notUtf8 f => "invalid UTF-8: " ++ f.message
  | tooFewFields expected found =>
      "expected at least " ++ toString expected ++ " fields, found "
        ++ toString found
  | fieldCount expected found =>
      "expected " ++ toString expected ++ " fields, found " ++ toString found
  | emptyObjectId => "empty object id"
  | invalidTimestamp text => "invalid timestamp " ++ ticked text
  | unexpectedRow kind fields =>
      "unexpected " ++ ticked kind ++ " row with " ++ toString fields
        ++ " fields"
  | invalidPayload f => "invalid payload: " ++ f.message
  | invalidRowMetadata f => "invalid metadata: " ++ f.message
  | unrecognizedCruftRow line => "unrecognized cruft row " ++ ticked line
  | unrecognizedAuditRow line => "unrecognized audit row " ++ ticked line
  | invalidUploadId text => "invalid upload id " ++ ticked text
  | incompleteFinalizing => "finalizing record needs key, shard and outcome"
  | unknownOutcome text => "unknown finalizing type " ++ ticked text
  | unknownTag text => "unknown record tag " ++ ticked text
  | invalidMetadata f => f.message
  | payloadWithoutValue => "payload has no `_value`"
  | objectWithoutOwner objectId => "object " ++ objectId ++ " has no owner"
  | unexpectedPath path => "unexpected listing path " ++ ticked path
  | invalidSize text f => "invalid size " ++ ticked text ++ ": " ++ f.message
  | invalidMtime text f => "invalid mtime " ++ ticked text ++ ": " ++ f.message
  | mtimeOutOfRange seconds =>
      "mtime " ++ ticked (toString seconds) ++ " out of range"
  | invalidJson f => "invalid JSON: " ++ f.message
  | invalidHeader f => "invalid schema header: " ++ f.message
  | rowBeforeHeader => "row appears before any schema header"
  | invalidEntry f => "invalid value row: " ++ f.message
  | columnCount values table columns =>
      "row has " ++ toString values ++ " values but schema " ++ ticked table
        ++ " declares " ++ toString columns ++ " keys"
  | invalidEmbedded f => "invalid embedded object: " ++ f.message
  | rowWithoutMtime => "row has no `_mtime`"
  | invalidRowMtime text => "invalid `_mtime` " ++ ticked text
  | rowWithoutValue => "row has no `_value`"
  | objectWithoutId key => "object " ++ ticked key ++ " has no objectId"
  | deletionWithoutId => "delete-log entry has no objectId"
  | invalidUploadPath key => "invalid upload id in " ++ ticked key
  | finalizingWithoutKey => "finalizing record has no `_key`"
  | finalizingWithoutValue => "finalizing record has no `_value`"
  | finalizingWithoutType => "finalizing record has no `finalizingType`"
  | invalidNode text =>
      "expected `storageId@datacenter`, got " ++ ticked text

end Defect
end Reclaim
