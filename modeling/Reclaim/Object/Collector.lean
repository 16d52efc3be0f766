import Reclaim.Grace
import Reclaim.Object.Replica
import Reclaim.Object.Row
import Reclaim.Stream.Groups

/-!
# Collecting dead objects

The rows of an object are read in the order of their dates.  The first
tombstone that no later live row supersedes decides about the replicas of the
object: past its grace period it is deleted and its replicas are removed.
Further tombstones of the same death are surplus: past their own grace period
they are deleted, and nothing else comes of them.

A tombstone whose payload does not list the replicas is kept, because nothing
else could find them.
-/

namespace Reclaim
namespace Object

/-- A tombstone that decides about the replicas of its object. -/
structure Tombstone where
  date : Time.Instant
  payload : Json.Value
  shard : String

/-- A further tombstone of the same death. -/
structure Surplus where
  date : Time.Instant
  shard : String
  deriving DecidableEq

/-- The tombstones of an object that no live row has superseded. -/
structure Death where
  pending : Option Tombstone := none
  surplus : List Surplus := []

/-- What has happened to the objects of a stream. -/
structure Counts where
  resurrected : Nat := 0
  withinGrace : Nat := 0
  tombstones : Nat := 0
  replicas : Nat := 0
  badPayloads : Nat := 0
  deriving DecidableEq

instance : Stream.Counters Counts where
  zero := {}
  add a b :=
    ⟨a.resurrected + b.resurrected, a.withinGrace + b.withinGrace,
      a.tombstones + b.tombstones, a.replicas + b.replicas,
      a.badPayloads + b.badPayloads⟩

namespace Death

/-- A live row drops the tombstones before it, if the deciding one is before it. -/
def addLive (d : Death) (date : Time.Instant) : Death × Counts :=
  match d.pending with
  | none => (d, {})
  | some t =>
      if compare t.date date = .lt then
        (⟨none, d.surplus.filter fun x => compare x.date date ≠ .lt⟩,
          { resurrected := 1 })
      else
        (d, {})

/-- A tombstone decides if none does; a repetition of the deciding one is ignored. -/
def addDead (d : Death) (t : Tombstone) : Death :=
  match d.pending with
  | none => { d with pending := some t }
  | some p =>
      if p.date = t.date ∧ p.shard = t.shard then d
      else { d with surplus := d.surplus ++ [⟨t.date, t.shard⟩] }

/-- Takes a row into the history of its object. -/
def add (d : Death) (row : Row) : Death × Counts :=
  match row.state with
  | .live => d.addLive row.date
  | .dead payload shard => (d.addDead ⟨row.date, payload, shard⟩, {})

end Death

/-- What comes of the tombstone that decides about an object. -/
def Tombstone.close (policy : GracePolicy) (objectId : String)
    (t : Tombstone) : List Action × Counts :=
  if policy.isExpired t.date then
    match Replica.ofPayload objectId t.date t.payload with
    | .error _ => ([], { badPayloads := 1 })
    | .ok replicas =>
        (.deleteTombstone objectId t.date t.shard ::
            replicas.map .removeReplica,
          { tombstones := 1, replicas := replicas.length })
  else
    ([], { withinGrace := 1 })

/-- What comes of a surplus tombstone. -/
def Surplus.close (policy : GracePolicy) (objectId : String)
    (x : Surplus) : List Action × Counts :=
  if policy.isExpired x.date then
    ([.deleteTombstone objectId x.date x.shard], { tombstones := 1 })
  else
    ([], { withinGrace := 1 })

/-- What comes of an object: first its deciding tombstone, then the surplus. -/
def Death.close (policy : GracePolicy) (objectId : String) (d : Death) :
    List Action × Counts :=
  let closed :=
    d.pending.toList.map (Tombstone.close policy objectId) ++
      d.surplus.map (Surplus.close policy objectId)
  (closed.flatMap Prod.fst,
    closed.foldl (fun n c => Stream.Counters.add n c.2) {})

/-- The groups of a stream of rows: the histories of the objects. -/
abbrev Histories := Stream.Groups (String × Time.Instant × Nat) Death Counts

/-- Works off the histories of objects under a grace policy. -/
def grouping (policy : GracePolicy) :
    Stream.Grouping Row (String × Time.Instant × Nat) Death Counts Action where
  key := Row.key
  group := Row.objectId
  empty := {}
  add := Death.add
  close := Death.close policy

/-- Collects dead objects. -/
def collector (policy : GracePolicy) : Stream.Engine Histories Row Action :=
  (grouping policy).engine

end Object
end Reclaim
