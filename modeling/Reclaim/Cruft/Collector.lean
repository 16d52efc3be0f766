import Reclaim.Cruft.Row
import Reclaim.Grace
import Reclaim.Stream.Groups

/-!
# Finding cruft

Cruft is a file on a storage node that no metadata refers to.  A file that was
written when the dumps were taken may be referred to by metadata that is not in
them, so only files are considered that are past the grace period at the time
of the earliest dump.
-/

namespace Reclaim
namespace Cruft

/-- A file that may be removed from its storage node. -/
structure Action where
  objectId : String
  storageId : String
  owner : String
  deriving DecidableEq

/-- The line of an action. -/
def Action.line (a : Action) : String :=
  Text.join '\t' ["cruft", a.objectId, a.storageId, a.owner]

/-- The old files of an object, and whether metadata refers to it. -/
structure Files where
  candidates : List Action := []
  referenced : Bool := false
  deriving DecidableEq

/-- What has been found in a stream. -/
structure Counts where
  referenced : Nat := 0
  tooRecent : Nat := 0
  cruft : Nat := 0
  deriving DecidableEq

instance : Stream.Counters Counts where
  zero := {}
  add a b :=
    ⟨a.referenced + b.referenced, a.tooRecent + b.tooRecent,
      a.cruft + b.cruft⟩

namespace Files

/-- Takes a row of the object. -/
def add (policy : GracePolicy) (f : Files) : Row → Files × Counts
  | .reference _ => ({ f with referenced := true }, {})
  | .stored objectId storageId owner date =>
      if policy.isExpired date then
        ({ f with
            candidates := f.candidates ++ [⟨objectId, storageId, owner⟩] },
          {})
      else
        (f, { tooRecent := 1 })

/-- The old files are cruft if nothing refers to the object. -/
def close (f : Files) : List Action × Counts :=
  if f.referenced then ([], { referenced := 1 })
  else (f.candidates, { cruft := f.candidates.length })

end Files

/-- The groups of a stream of rows: the files of the objects. -/
abbrev Objects := Stream.Groups (String × Nat × String) Files Counts

/-- Works off the files of objects under a grace policy. -/
def grouping (policy : GracePolicy) :
    Stream.Grouping Row (String × Nat × String) Files Counts Action where
  key := Row.key
  group := Row.objectId
  empty := {}
  add := Files.add policy
  close _ := Files.close

/-- Finds cruft. -/
def collector (policy : GracePolicy) : Stream.Engine Objects Row Action :=
  (grouping policy).engine

end Cruft
end Reclaim
