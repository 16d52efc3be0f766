import Reclaim.Audit.Row
import Reclaim.Sorted.Map
import Reclaim.Stream.Groups

/-!
# Auditing replicas

An object is audited if its metadata places replicas.  A finding lists the
storage nodes that should hold a replica and do not.
-/

namespace Reclaim
namespace Audit

/-- A set of texts in their order. -/
abbrev Names := Sorted.SortedMap String Unit

/-- An object some of whose replicas are missing. -/
structure Finding where
  objectId : String
  owner : String
  key : String
  /-- How many storage nodes should hold a replica. -/
  expected : Nat
  /-- How many of them do. -/
  found : Nat
  missing : List String
  deriving DecidableEq

/-- The line of a finding. -/
def Finding.line (f : Finding) : String :=
  Text.join '\t' ["audit", f.objectId, f.owner, f.key, toString f.expected,
    toString f.found, Text.join ',' f.missing]

/-- What metadata and storage nodes say of an object. -/
structure Replicas where
  /-- Owner and key in the first row of the metadata. -/
  source : Option (String × String) := none
  expected : Names := .empty
  stored : Names := .empty

/-- What has been found in a stream. -/
structure Counts where
  audited : Nat := 0
  storageOnly : Nat := 0
  missing : Nat := 0
  deriving DecidableEq

instance : Stream.Counters Counts where
  zero := {}
  add a b :=
    ⟨a.audited + b.audited, a.storageOnly + b.storageOnly,
      a.missing + b.missing⟩

namespace Replicas

/-- Takes a row of the object. -/
def add (r : Replicas) : Row → Replicas
  | .stored _ storageId => { r with stored := r.stored.insert storageId () }
  | .expected _ storageId owner key =>
      { r with
        source := some (r.source.getD (owner, key))
        expected := r.expected.insert storageId () }

/-- The storage nodes that should hold a replica and do not. -/
def missing (r : Replicas) : List String :=
  r.expected.keys.filter fun x => !r.stored.contains x

/-- The storage nodes that hold a replica as they should. -/
def found (r : Replicas) : List String :=
  r.expected.keys.filter fun x => r.stored.contains x

/-- The finding about an object. -/
def finding (r : Replicas) (objectId : String) : Finding :=
  let (owner, key) := r.source.getD ("", "")
  ⟨objectId, owner, key, r.expected.keys.length, r.found.length, r.missing⟩

/-- An object that lacks replicas gives a finding. -/
def close (objectId : String) (r : Replicas) : List Finding × Counts :=
  if r.expected.keys.isEmpty then ([], { storageOnly := 1 })
  else if r.missing.isEmpty then ([], { audited := 1 })
  else
    ([r.finding objectId], { audited := 1, missing := r.missing.length })

end Replicas

/-- The groups of a stream of rows: the replicas of the objects. -/
abbrev Objects := Stream.Groups (String × Nat × String) Replicas Counts

/-- Works off the replicas of objects. -/
def grouping :
    Stream.Grouping Row (String × Nat × String) Replicas Counts Finding where
  key := Row.key
  group := Row.objectId
  empty := {}
  add r row := (r.add row, {})
  close := Replicas.close

/-- Audits the replicas of objects. -/
def auditor : Stream.Engine Objects Row Finding :=
  grouping.engine

end Audit
end Reclaim
