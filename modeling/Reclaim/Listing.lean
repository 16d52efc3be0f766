import Reclaim.Defect
import Reclaim.Text.Split
import Reclaim.Time.Timestamp

/-!
# Storage listings

A storage node lists its files, one a line: the path with owner and object id,
the size in bytes and the time of the last change in seconds.
-/

namespace Reclaim

/-- A file that a storage node holds. -/
structure Listing where
  storageId : String
  owner : String
  objectId : String
  size : Nat
  date : Time.Instant
  deriving DecidableEq

namespace Listing

/-- Owner and object id, the two segments of a path. -/
def ownerAndId? (path : String) : Option (String × String) :=
  match Text.pieces '/' (Text.trimStart '/' path.toList) with
  | [owner, objectId] =>
      if owner.isEmpty ∨ objectId.isEmpty then none
      else some (String.ofList owner, String.ofList objectId)
  | _ => none

/-- The fault of a number as a defect. -/
def number {α : Type} (defect : Text.IntegerFault → Defect)
    (x : Except Text.IntegerFault α) : Except Defect α :=
  x.mapError defect

/-- Reads a line of the listing of a storage node. -/
def parse (storageId line : String) : Except Defect Listing :=
  match Text.fields '\t' line with
  | [path, size, mtime] =>
      match ownerAndId? path with
      | none => .error (.unexpectedPath path)
      | some (owner, objectId) => do
          let bytes ← number (.invalidSize size)
            (Text.readNatural Text.maxUnsigned64 size)
          let seconds ← number (.invalidMtime mtime)
            (Text.readInteger Text.maxSigned64 mtime)
          match Time.Instant.ofSeconds? seconds with
          | some date => .ok ⟨storageId, owner, objectId, bytes, date⟩
          | none => .error (.mtimeOutOfRange seconds)
  | fields => .error (.fieldCount 3 fields.length)

end Listing
end Reclaim
