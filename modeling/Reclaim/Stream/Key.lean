import Reclaim.Text.Quoted
import Reclaim.Time.Timestamp
import Reclaim.Uuid

/-!
# Sort keys

The positions of rows in a sorted stream.  Keys are texts, numbers, instants,
uuids and rows of keys; rows of keys are compared from the left.  Reports show
texts in quotes and rows of keys in parentheses.
-/

namespace Reclaim
namespace Stream

/-- A type of positions in a sorted stream. -/
class SortKey (κ : Type) extends Ord κ where
  /-- The parts of a key as reports show them. -/
  parts : κ → List String

instance : SortKey String := ⟨fun s => [Text.quoted s]⟩

instance : SortKey Int := ⟨fun n => [toString n]⟩

instance : SortKey Nat := ⟨fun n => [toString n]⟩

instance : SortKey Time.Instant := ⟨fun t => [t.preciseText]⟩

instance : SortKey Uuid := ⟨fun u => [u.text]⟩

instance {α β : Type} [SortKey α] [SortKey β] : SortKey (α × β) where
  compare a b := (compare a.1 b.1).then (compare a.2 b.2)
  parts a := SortKey.parts a.1 ++ SortKey.parts a.2

/-- A key as reports show it. -/
def shown {κ : Type} [SortKey κ] (key : κ) : String :=
  match SortKey.parts key with
  | [part] => part
  | parts => "(" ++ ", ".intercalate parts ++ ")"

end Stream
end Reclaim
