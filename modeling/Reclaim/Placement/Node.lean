import Reclaim.Defect
import Reclaim.Sorted.Map
import Reclaim.Text.Blank
import Reclaim.Text.Split

/-!
# Storage nodes

An inventory lists the storage nodes with their datacenters.  A node is healthy
if it is listed and is not being evacuated.
-/

namespace Reclaim
namespace Placement

/-- A storage node and the datacenter it stands in. -/
structure Node where
  storageId : String
  datacenter : String
  deriving DecidableEq

/-- Reads a node from its id and its datacenter with an at sign between them. -/
def Node.parse (s : String) : Except Defect Node :=
  match Text.cutLast? '@' (Text.trimBlanks s.toList) with
  | some (storageId, datacenter) =>
      if storageId.isEmpty ∨ datacenter.isEmpty then
        .error (.invalidNode s)
      else
        .ok ⟨String.ofList storageId, String.ofList datacenter⟩
  | none => .error (.invalidNode s)

/-- The storage nodes, and those that are being evacuated. -/
structure Inventory where
  /-- The datacenters of the nodes. -/
  nodes : Sorted.SortedMap String String
  evacuating : List String

namespace Inventory

/-- The inventory of these nodes, of which the last of an id counts. -/
def ofNodes (nodes : List Node) (evacuating : List String) : Inventory :=
  ⟨.ofList (nodes.map fun n => (n.storageId, n.datacenter)), evacuating⟩

/-- A node that is listed and is not being evacuated. -/
def isHealthy (v : Inventory) (storageId : String) : Bool :=
  v.nodes.contains storageId && !v.evacuating.contains storageId

/-- The healthy nodes in the order of their ids. -/
def healthy (v : Inventory) : List (String × String) :=
  v.nodes.pairs.filter fun n => v.isHealthy n.1

end Inventory
end Placement
end Reclaim
