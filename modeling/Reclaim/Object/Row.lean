import Reclaim.Defect
import Reclaim.Json.Equality
import Reclaim.Json.Printer
import Reclaim.Json.Reader
import Reclaim.Stream.Key
import Reclaim.Text.Split

/-!
# Rows of an object's history

At a date an object was live, or dead: a tombstone carries the row of the
delete log, with the metadata of the object, and the shard that the log belongs
to.  Rows are sorted by object and date, a tombstone before a live row of the
same date.
-/

namespace Reclaim
namespace Object

/-- What an object was at a date. -/
inductive State
  | live
  | dead (payload : Json.Value) (shard : String)
  deriving DecidableEq

namespace State

/-- Tombstones come first. -/
def tag : State → Nat
  | dead _ _ => 0
  | live => 1

end State

/-- A row of an object's history. -/
structure Row where
  objectId : String
  date : Time.Instant
  state : State
  deriving DecidableEq

namespace Row

/-- The position in the sorted stream. -/
def key (r : Row) : String × Time.Instant × Nat :=
  (r.objectId, r.date, r.state.tag)

/-- The fields of the line of a row. -/
def fields (r : Row) : List String :=
  match r.state with
  | .live => [r.objectId, r.date.text, "live"]
  | .dead payload shard =>
      [r.objectId, r.date.text, "dead", payload.text, shard]

/-- The line of a row. -/
def line (r : Row) : String :=
  Text.join '\t' r.fields

/-- The state that the fields after the date write. -/
def stateOf : List String → Except Defect State
  | ["live"] => .ok .live
  | ["dead", payload, shard] =>
      match Json.parse payload with
      | .ok v => .ok (.dead v shard)
      | .error e => .error (.invalidPayload e)
  | fields =>
      .error (.unexpectedRow (fields.headD "") (fields.length + 2))

/-- Reads the line of a row; the shard may contain tabs. -/
def parse (line : String) : Except Defect Row :=
  match Text.fieldsAtMost '\t' 5 line with
  | objectId :: date :: kind :: rest =>
      if objectId.isEmpty then .error .emptyObjectId
      else
        match Time.Instant.parse? date with
        | none => .error (.invalidTimestamp date)
        | some t => do
            let state ← stateOf (kind :: rest)
            .ok ⟨objectId, t, state⟩
  | fields => .error (.tooFewFields 3 fields.length)

end Row
end Object
end Reclaim
