import Mathlib.Data.Finset.Card
import Reclaim.Proofs.Placement.Moves

/-!
# The datacenters of an object

Picks go to new datacenters as long as there are any.  So either each pick
brings a datacenter, or all datacenters with a node to pick from are used, and
no other choice of nodes reaches more datacenters.

Main results: `card_union_picks` and `spread_le_of_moves`.
-/

namespace Reclaim
namespace Placement

section Picks

/-- A node in a used datacenter is picked only if all nodes are in such. -/
theorem used_of_lowest
    {digest : String → Nat} {objectId : String} {used : List String}
    {nodes : List (String × String)} {node : String × String}
    (h : lowest (rank digest objectId used) nodes = some node)
    (hused : node.2 ∈ used) : ∀ n ∈ nodes, n.2 ∈ used := by
  intro n hn
  have hle := Prod.Lex.monotone_fst _ _ (le_of_lowest h hn)
  by_cases hnew : n.2 ∈ used
  · exact hnew
  · simp [rank, hused, hnew] at hle

/-- The picks reach as many datacenters as their number and the nodes allow. -/
theorem card_union_picks
    (digest : String → Nat) (objectId : String) (sources used : List String)
    {nodes : List (String × String)} (distinct : (nodes.map Prod.fst).Nodup) :
    (used.toFinset ∪ ((picks digest objectId sources used nodes).map
        fun p => p.node.2).toFinset).card =
      min (used.toFinset.card + (picks digest objectId sources used nodes).length)
        (used.toFinset ∪ (nodes.map Prod.snd).toFinset).card := by
  fun_induction picks digest objectId sources used nodes with
  | case1 => simp [Finset.card_le_card]
  | case2 source sources used nodes hnone =>
      simp [lowest_eq_none_iff.1 hnone]
  | case3 source sources used nodes node hlow ih =>
      have hnodes : (nodes.map Prod.snd).toFinset =
          insert node.2 ((besides node.1 nodes).map Prod.snd).toFinset := by
        have hperm := perm_besides distinct (mem_of_lowest hlow)
        rw [List.toFinset_eq_of_perm _ _ (hperm.map Prod.snd), List.map_cons,
          List.toFinset_cons]
      have hrest := ih (nodup_besides distinct)
      rw [List.toFinset_cons, Finset.insert_union, Finset.insert_union,
        ← Finset.union_insert, ← Finset.union_insert, ← hnodes] at hrest
      rw [List.map_cons, List.toFinset_cons, hrest, List.length_cons]
      by_cases hused : node.2 ∈ used
      · -- All datacenters are used, so that both bounds are their number.
        have hall : (nodes.map Prod.snd).toFinset ⊆ used.toFinset := by
          intro d hd
          obtain ⟨n, hn, rfl⟩ := List.mem_map.1 (List.mem_toFinset.1 hd)
          exact List.mem_toFinset.2 (used_of_lowest hlow hused n hn)
        rw [Finset.union_eq_left.2 hall,
          Finset.insert_eq_of_mem (List.mem_toFinset.2 hused)]
        omega
      · rw [Finset.card_insert_of_notMem (mt List.mem_toFinset.1 hused)]
        congr 1
        omega

end Picks

namespace Inventory

/-- The number of datacenters in which some of the nodes stand. -/
def spread (v : Inventory) (ids : List String) : Nat :=
  (ids.filterMap v.nodes.get?).toFinset.card

theorem spread_append (v : Inventory) (ids more : List String) :
    v.spread (ids ++ more) =
      ((ids.filterMap v.nodes.get?).toFinset ∪
        (more.filterMap v.nodes.get?).toFinset).card := by
  rw [spread, List.filterMap_append, List.toFinset_append]

end Inventory

section Moves

variable {digest : String → Nat} {v : Inventory} {row : Row}

/-- The replicas on healthy nodes. -/
def Row.healthyIds (v : Inventory) (row : Row) : List String :=
  row.storageIds.filter v.isHealthy

theorem get?_of_mem_candidates
    {p : Plan} {n : String × String} (h : n ∈ p.candidates v) :
    v.nodes.get? n.1 = some n.2 :=
  Sorted.SortedMap.get?_of_mem (List.mem_filter.1 (List.mem_filter.1 h).1).1

theorem filterMap_targets :
    ((Plan.ofRow digest v row).moves.map Action.target).filterMap v.nodes.get? =
      (Plan.made digest v row).map fun p => p.node.2 := by
  have found : ∀ p ∈ Plan.made digest v row,
      (v.nodes.get? ∘ Action.target ∘ row.moveOf) p =
        (some ∘ fun p => p.node.2) p :=
    fun p hp => get?_of_mem_candidates (node_mem_of_mem_picks hp)
  rw [Plan.moves_ofRow, List.map_map, List.filterMap_map,
    List.filterMap_congr found, List.filterMap_eq_map]

theorem datacenters_of_free
    {ids : List String}
    (free : ∀ id ∈ ids, v.isHealthy id = true ∧ id ∉ row.storageIds) :
    (ids.filterMap v.nodes.get?).toFinset ⊆
      (((Plan.start v row).candidates v).map Prod.snd).toFinset := by
  intro d hd
  obtain ⟨id, hid, hget⟩ := List.mem_filterMap.1 (List.mem_toFinset.1 hd)
  have hfree := mem_freeNodes.2 (free id hid)
  rw [← map_fst_candidates] at hfree
  obtain ⟨n, hn, rfl⟩ := List.mem_map.1 hfree
  obtain rfl := Option.some.inj ((get?_of_mem_candidates hn).symm.trans hget)
  exact List.mem_toFinset.2 (List.mem_map_of_mem hn)

/-- No other choice of as many free nodes, even with a node chosen twice, brings
an object to more datacenters than its moves do. -/
theorem spread_le_of_moves
    (digest : String → Nat) (v : Inventory) (row : Row) {others : List String}
    (free : ∀ id ∈ others, v.isHealthy id = true ∧ id ∉ row.storageIds)
    (asMany : others.length = (Plan.ofRow digest v row).moves.length) :
    v.spread (row.healthyIds v ++ others) ≤
      v.spread (row.healthyIds v ++
        (Plan.ofRow digest v row).moves.map Action.target) := by
  have few : (others.filterMap v.nodes.get?).toFinset.card ≤
      (Plan.made digest v row).length :=
    calc (others.filterMap v.nodes.get?).toFinset.card
        ≤ (others.filterMap v.nodes.get?).length := List.toFinset_card_le _
      _ ≤ others.length := List.length_filterMap_le _ _
      _ = (Plan.made digest v row).length := by
          rw [asMany, Plan.moves_ofRow, List.length_map]
  have reached := card_union_picks digest row.objectId (Plan.misplaced v row)
    (Plan.start v row).datacenters (nodup_candidates v row)
  rw [v.spread_append, v.spread_append, filterMap_targets]
  refine le_trans (le_min ?_ ?_) reached.ge
  · exact (Finset.card_union_le _ _).trans (Nat.add_le_add_left few _)
  · exact Finset.card_le_card
      (Finset.union_subset_union_right (datacenters_of_free free))

/-- In the sample, the other free node would leave the object in one datacenter. -/
theorem spread_le_of_moves_sample :
    (∀ id ∈ ["3.stor"], sampleInventory.isHealthy id = true ∧
        id ∉ (sampleObject ["1.stor", "2.stor"]).storageIds) ∧
      ["3.stor"].length = (Plan.ofRow String.length sampleInventory
        (sampleObject ["1.stor", "2.stor"])).moves.length ∧
      sampleInventory.spread ["2.stor", "3.stor"] = 1 ∧
      sampleInventory.spread ["2.stor", "3.stor"] ≤
        sampleInventory.spread ("2.stor" ::
          (Plan.ofRow String.length sampleInventory
            (sampleObject ["1.stor", "2.stor"])).moves.map Action.target) := by
  have hhealthy : (sampleObject ["1.stor", "2.stor"]).healthyIds sampleInventory =
      ["2.stor"] := by decide +kernel
  have free : ∀ id ∈ ["3.stor"], sampleInventory.isHealthy id = true ∧
      id ∉ (sampleObject ["1.stor", "2.stor"]).storageIds := by decide +kernel
  have asMany : ["3.stor"].length = (Plan.ofRow String.length sampleInventory
      (sampleObject ["1.stor", "2.stor"])).moves.length := by decide +kernel
  have hspread := spread_le_of_moves String.length sampleInventory
    (sampleObject ["1.stor", "2.stor"]) free asMany
  rw [hhealthy] at hspread
  exact ⟨free, asMany, by decide +kernel, hspread⟩

end Moves

end Placement
end Reclaim
