import Reclaim.Text.Digit
import Reclaim.Text.Split

/-!
# Paths of uploads

An upload lies at `/owner/uploads/group/id`, and its parts lie below it under
their numbers.  Owner and id are written with 36 hexadecimal digits and
hyphens.
-/

namespace Reclaim
namespace Upload

/-- The path of an upload or of one of its parts. -/
structure Path where
  owner : List Char
  group : List Char
  upload : List Char
  part : Option (List Char)
  deriving DecidableEq

namespace Path

/-- Hexadecimal digits and hyphens in the number that a uuid has. -/
def isIdLike (s : List Char) : Bool :=
  s.length = 36 && s.all fun c => (Text.hexValue? c).isSome || c = '-'

/-- The number of a part: one or more decimal digits. -/
def isPartNumber (s : List Char) : Bool :=
  !s.isEmpty && s.all Text.isDecimalDigit

/-- The segment of a path above all uploads of an owner. -/
def uploadsSegment : List Char :=
  "uploads".toList

/-- The path whose segments are these. -/
def ofSegments? : List (List Char) → Option Path
  | [root, owner, uploads, group, upload] =>
      if root.isEmpty ∧ isIdLike owner ∧ uploads = uploadsSegment ∧
          ¬ group.isEmpty ∧ isIdLike upload then
        some ⟨owner, group, upload, none⟩
      else
        none
  | [root, owner, uploads, group, upload, part] =>
      if root.isEmpty ∧ isIdLike owner ∧ uploads = uploadsSegment ∧
          ¬ group.isEmpty ∧ isIdLike upload ∧ isPartNumber part then
        some ⟨owner, group, upload, some part⟩
      else
        none
  | _ => none

/-- Reads the path of an upload or of one of its parts. -/
def parse? (key : String) : Option Path :=
  ofSegments? (Text.pieces '/' key.toList)

end Path
end Upload
end Reclaim
