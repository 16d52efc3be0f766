import Reclaim.Proofs.Placement.Picks
import Reclaim.Proofs.Sorted.Map

/-!
# The moves of an object

A replica is stranded if its node is being evacuated or is not listed.  The
stranded replicas of an object move to the free nodes, which are healthy and
hold none of its replicas, each to a node of its own.  Replicas come in the
order of the metadata, and what is left when there are no more free nodes is
unplaceable.

Main result: `planner_settles`.
-/

namespace Reclaim
namespace Placement

/-- The replicas on nodes that are being evacuated or are not listed. -/
def stranded (v : Inventory) (row : Row) : List String :=
  row.storageIds.filter fun id => v.evacuating.contains id || !v.nodes.contains id

/-- The healthy nodes that hold no replica of the object. -/
def freeNodes (v : Inventory) (row : Row) : List String :=
  v.nodes.keys.filter fun id => v.isHealthy id && !row.storageIds.contains id

section FreeNodes

variable {digest : String → Nat} {v : Inventory} {row : Row} {id : String}

theorem stranded_eq :
    stranded v row = row.storageIds.filter fun id => !v.isHealthy id := by
  refine List.filter_congr fun id _ => ?_
  rw [Inventory.isHealthy, Bool.not_and, Bool.not_not, Bool.or_comm]

theorem misplaced_eq_stranded (h : row.metadata.isObject = true) :
    Plan.misplaced v row = stranded v row := by
  rw [Plan.misplaced_of_isObject h, stranded_eq]

theorem mem_freeNodes :
    id ∈ freeNodes v row ↔ v.isHealthy id = true ∧ id ∉ row.storageIds := by
  rw [freeNodes, List.mem_filter, Sorted.SortedMap.mem_keys_iff]
  simp only [Inventory.isHealthy, Bool.and_eq_true, Bool.not_eq_true',
    List.contains_eq_mem, decide_eq_false_iff_not]
  exact and_iff_right_of_imp fun h => h.1.1

theorem nodup_freeNodes : (freeNodes v row).Nodup :=
  v.nodes.nodup_keys.filter _

theorem map_fst_candidates :
    ((Plan.start v row).candidates v).map Prod.fst = freeNodes v row := by
  rw [freeNodes, Sorted.SortedMap.keys, List.filter_map, Plan.candidates,
    Inventory.healthy, List.filter_filter]
  congr 1
  refine List.filter_congr fun n _ => ?_
  exact Bool.and_comm _ _

theorem nodup_candidates (v : Inventory) (row : Row) :
    (((Plan.start v row).candidates v).map Prod.fst).Nodup := by
  rw [map_fst_candidates]
  exact nodup_freeNodes

end FreeNodes

section Moves

variable {digest : String → Nat} {v : Inventory} {row : Row} {a : Action}

theorem target_mem_freeNodes (h : a ∈ (Plan.ofRow digest v row).moves) :
    a.target ∈ freeNodes v row := by
  rw [Plan.moves_ofRow] at h
  obtain ⟨p, hp, rfl⟩ := List.mem_map.1 h
  rw [← map_fst_candidates]
  exact List.mem_map_of_mem (node_mem_of_mem_picks hp)

/-- No two moves of an object go to the same node. -/
theorem nodup_targets :
    ((Plan.ofRow digest v row).moves.map Action.target).Nodup := by
  rw [Plan.moves_ofRow, List.map_map]
  exact nodup_picks

theorem length_moves :
    (Plan.ofRow digest v row).moves.length =
      min (Plan.misplaced v row).length (freeNodes v row).length := by
  rw [Plan.moves_ofRow, List.length_map, Plan.made, length_picks (nodup_candidates v row),
    ← map_fst_candidates, List.length_map]

/-- The first of the misplaced replicas move. -/
theorem sources_moves (digest : String → Nat) (v : Inventory) (row : Row) :
    (Plan.ofRow digest v row).moves.map Action.source <+: Plan.misplaced v row := by
  rw [Plan.moves_ofRow, List.map_map]
  exact sources_picks

theorem unplaceable_eq :
    (Plan.ofRow digest v row).unplaceable =
      (Plan.misplaced v row).length - (Plan.ofRow digest v row).moves.length := by
  rw [Plan.unplaceable_ofRow, Plan.moves_ofRow, List.length_map]

/-- The planner moves the first stranded replicas of an object to free nodes, each
to a node of its own, and counts those for which there are no free nodes left. -/
theorem planner_settles
    (digest : String → Nat) (v : Inventory) (n : Counts) {row : Row}
    (object : row.metadata.isObject = true) :
    ∃ moves,
      (planner digest v).offer n row =
          (⟨n.objects + 1, n.moves + moves.length,
              n.unplaceable + ((stranded v row).length - moves.length)⟩,
            .ok moves) ∧
        moves.length = min (stranded v row).length (freeNodes v row).length ∧
        moves.map Action.source = (stranded v row).take moves.length ∧
        (moves.map Action.target).Nodup ∧
        ∀ a ∈ moves,
          (v.isHealthy a.target = true ∧ a.target ∉ row.storageIds) ∧
            a.objectId = row.objectId ∧ a.owner = row.metadata.owner.getD "" ∧
              a.shard = row.shard ∧ a.key = row.metadata.key := by
  have hmisplaced := misplaced_eq_stranded (v := v) object
  refine ⟨(Plan.ofRow digest v row).moves, ?_, ?_, ?_, nodup_targets, ?_⟩
  · rw [← hmisplaced, ← unplaceable_eq]
    rfl
  · rw [← hmisplaced, length_moves]
  · have hprefix := sources_moves digest v row
    rw [hmisplaced] at hprefix
    simpa using List.prefix_iff_eq_take.1 hprefix
  · intro a ha
    refine ⟨mem_freeNodes.1 (target_mem_freeNodes ha), ?_⟩
    rw [Plan.moves_ofRow] at ha
    obtain ⟨p, -, rfl⟩ := List.mem_map.1 ha
    exact ⟨rfl, rfl, rfl, rfl⟩

end Moves

section Sample

/-- Four nodes, of which one is being evacuated; of two entries for one node the
last one counts. -/
def sampleInventory : Inventory :=
  .ofNodes
    [⟨"1.stor", "east"⟩, ⟨"2.stor", "east"⟩, ⟨"3.stor", "north"⟩, ⟨"4.stor", "west"⟩,
      ⟨"3.stor", "east"⟩]
    ["1.stor"]

/-- An object with replicas on the given nodes. -/
def sampleObject (ids : List String) : Row :=
  ⟨"o", "1.moray", ⟨"/a/stor/o", "object", some "o", some "a",
    ids.map fun id => ⟨none, id, none, none⟩, none, none⟩⟩

/-- Three replicas of the sample are stranded, two of them on one node, and two nodes
are free. -/
theorem planner_settles_sample :
    (sampleObject ["1.stor", "9.stor", "2.stor", "1.stor"]).metadata.isObject = true ∧
      ∃ moves,
        (planner String.length sampleInventory).offer ⟨0, 0, 0⟩
            (sampleObject ["1.stor", "9.stor", "2.stor", "1.stor"]) =
          (⟨1, 2, 1⟩, .ok moves) ∧
        moves.map Action.source = ["1.stor", "9.stor"] ∧
        (moves.map Action.target).Nodup ∧
        ∀ a ∈ moves, sampleInventory.isHealthy a.target = true ∧
          a.target ∉ ["1.stor", "9.stor", "2.stor", "1.stor"] := by
  have hstranded : stranded sampleInventory
      (sampleObject ["1.stor", "9.stor", "2.stor", "1.stor"]) =
        ["1.stor", "9.stor", "1.stor"] := by decide +kernel
  have hfree : freeNodes sampleInventory
      (sampleObject ["1.stor", "9.stor", "2.stor", "1.stor"]) =
        ["3.stor", "4.stor"] := by decide +kernel
  have object : (sampleObject ["1.stor", "9.stor", "2.stor", "1.stor"]).metadata.isObject
      = true := rfl
  obtain ⟨moves, hoffer, hlength, hsources, hdistinct, hmoves⟩ :=
    planner_settles String.length sampleInventory ⟨0, 0, 0⟩ object
  rw [hstranded, hfree] at hlength
  rw [hstranded, hlength] at hsources hoffer
  exact ⟨object, moves, hoffer, hsources, hdistinct, fun a ha => (hmoves a ha).1⟩

end Sample

end Placement
end Reclaim
