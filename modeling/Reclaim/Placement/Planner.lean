import Reclaim.Placement.Node
import Reclaim.Placement.Row
import Reclaim.Stream.Engine

/-!
# Planning moves

Each replica on a node that is not healthy moves to a healthy node that does
not hold the object.  Nodes in datacenters where the object has no healthy
replica are preferred; among equals the digest of object and node decides, so
that objects spread over the nodes and a plan does not change between runs.

Everything here holds for any digest.
-/

namespace Reclaim
namespace Placement

/-- A replica moves from one storage node to another. -/
structure Action where
  objectId : String
  owner : String
  source : String
  target : String
  shard : String
  key : String
  deriving DecidableEq

/-- The line of an action. -/
def Action.line (a : Action) : String :=
  Text.join '\t'
    ["rebalance", a.objectId, a.owner, a.source, a.target, a.shard, a.key]

/-- The moves of an object, and how many of its replicas found no place. -/
structure Plan where
  /-- The nodes that hold the object or will hold it. -/
  holding : List String
  /-- The datacenters where the object has a healthy replica or will have one. -/
  datacenters : List String
  moves : List Action := []
  unplaceable : Nat := 0

/-- The rank of a node: new datacenters first, then by the digest. -/
def rank (digest : String → Nat) (objectId : String)
    (datacenters : List String) (node : String × String) : Nat × Nat :=
  (if datacenters.contains node.2 then 1 else 0,
    digest (objectId ++ ":" ++ node.1))

/-- The first rank comes before the second. -/
def precedes (x y : Nat × Nat) : Bool :=
  x.1 < y.1 || (x.1 = y.1 && x.2 < y.2)

/-- The first of the items with the lowest rank. -/
def lowest {α : Type} (rank : α → Nat × Nat) : List α → Option α
  | [] => none
  | x :: xs =>
      match lowest rank xs with
      | none => some x
      | some y => if precedes (rank y) (rank x) then some y else some x

namespace Plan

/-- The plan before any move. -/
def start (v : Inventory) (row : Row) : Plan :=
  let ids := row.metadata.locations.map Location.storageId
  { holding := ids
    datacenters := (ids.filter v.isHealthy).filterMap v.nodes.get? }

/-- The healthy nodes that do not hold the object. -/
def candidates (v : Inventory) (p : Plan) : List (String × String) :=
  v.healthy.filter fun n => !p.holding.contains n.1

/-- Moves the replica on a node, if there is a place for it. -/
def move (digest : String → Nat) (v : Inventory) (row : Row) (p : Plan)
    (source : String) : Plan :=
  match lowest (rank digest row.objectId p.datacenters) (p.candidates v) with
  | none => { p with unplaceable := p.unplaceable + 1 }
  | some (target, datacenter) =>
      { p with
        holding := target :: p.holding
        datacenters := datacenter :: p.datacenters
        moves := p.moves ++
          [⟨row.objectId, row.metadata.owner.getD "", source, target,
            row.shard, row.metadata.key⟩] }

/-- The replicas of an object that have to move. -/
def sources (v : Inventory) (row : Row) : List String :=
  (row.metadata.locations.map Location.storageId).filter
    fun id => !v.isHealthy id

/-- The moves of an object; what is no object does not move. -/
def ofRow (digest : String → Nat) (v : Inventory) (row : Row) : Plan :=
  if row.metadata.isObject then
    (sources v row).foldl (move digest v row) (start v row)
  else
    start v row

end Plan

/-- What has been planned for the objects of a stream. -/
structure Counts where
  objects : Nat := 0
  moves : Nat := 0
  unplaceable : Nat := 0
  deriving DecidableEq

/-- Plans the moves of objects. -/
def planner (digest : String → Nat) (v : Inventory) :
    Stream.Engine Counts Row Action where
  offer n row :=
    let p := Plan.ofRow digest v row
    (⟨n.objects + 1, n.moves + p.moves.length,
        n.unplaceable + p.unplaceable⟩,
      .ok p.moves)
  finish n := (n, [])

end Placement
end Reclaim
