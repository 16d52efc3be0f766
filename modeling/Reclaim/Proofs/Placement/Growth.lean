import Reclaim.Proofs.Placement.Moves

/-!
# Plans with one more node

A node that is left out changes a pick only if it would have been picked itself.
So the plans of an object with and without a new node go the same way up to the
first move to the new node.

Main results: `picks_besides` and `moves_add`.
-/

namespace Reclaim
namespace Placement

theorem besides_comm (a b : String) (nodes : List (String × String)) :
    besides a (besides b nodes) = besides b (besides a nodes) := by
  simp only [besides, List.filter_filter, Bool.and_comm]

/-- Without one of the nodes, the picks are the same up to the first pick of it. -/
theorem picks_besides
    (digest : String → Nat) (objectId id : String) (sources used : List String)
    (nodes : List (String × String)) :
    picks digest objectId sources used nodes =
        picks digest objectId sources used (besides id nodes) ∨
      ∃ common pick rest,
        picks digest objectId sources used nodes = common ++ pick :: rest ∧
          pick.node.1 = id ∧
            common <+: picks digest objectId sources used (besides id nodes) := by
  induction sources generalizing used nodes with
  | nil => exact .inl rfl
  | cons source sources ih =>
      cases hlow : lowest (rank digest objectId used) nodes with
      | none =>
          obtain rfl := lowest_eq_none_iff.1 hlow
          exact .inl rfl
      | some node =>
          by_cases hid : node.1 = id
          · exact .inr ⟨[], ⟨source, node⟩, _, picks_cons hlow, hid, List.nil_prefix⟩
          · have hless : lowest (rank digest objectId used) (besides id nodes) =
                some node := lowest_filter hlow (bne_iff_ne.2 hid)
            rw [picks_cons hlow, picks_cons hless, besides_comm node.1 id]
            rcases ih (node.2 :: used) (besides node.1 nodes) with
              heq | ⟨common, pick, rest, heq, hpick, hcommon⟩
            · exact .inl (congrArg _ heq)
            · refine .inr ⟨⟨source, node⟩ :: common, pick, rest, ?_, hpick,
                (List.prefix_cons_inj _).2 hcommon⟩
              rw [heq, List.cons_append]

/-- The inventory with one more node. -/
def Inventory.add (v : Inventory) (node : Node) : Inventory :=
  { v with nodes := v.nodes.insert node.storageId node.datacenter }

section Add

variable {v : Inventory} {row : Row} {node : Node} {id : String}

theorem get?_add (h : id ≠ node.storageId) :
    (v.add node).nodes.get? id = v.nodes.get? id := by
  rw [Inventory.add, Sorted.SortedMap.get?_insert, if_neg h]

theorem isHealthy_add (h : id ≠ node.storageId) :
    (v.add node).isHealthy id = v.isHealthy id := by
  rw [Inventory.isHealthy, Inventory.isHealthy, Sorted.SortedMap.contains,
    Sorted.SortedMap.contains, get?_add h]
  rfl

/-- The other healthy nodes stay the same. -/
theorem besides_healthy_add (unlisted : node.storageId ∉ v.nodes.keys) :
    besides node.storageId (v.add node).healthy = v.healthy := by
  have others : ∀ n ∈ v.nodes.pairs, n.1 ≠ node.storageId := by
    intro n hn heq
    exact unlisted (List.mem_map.2 ⟨n, hn, heq⟩)
  have hpairs : besides node.storageId (v.add node).nodes.pairs = v.nodes.pairs :=
    Sorted.filter_insertPair others
  calc besides node.storageId (v.add node).healthy
      = (besides node.storageId (v.add node).nodes.pairs).filter
          fun n => (v.add node).isHealthy n.1 := by
        simp only [besides, Inventory.healthy, List.filter_filter, Bool.and_comm]
    _ = v.nodes.pairs.filter fun n => (v.add node).isHealthy n.1 := by rw [hpairs]
    _ = v.healthy := List.filter_congr fun n hn => isHealthy_add (others n hn)

section NotHeld

variable (notHeld : node.storageId ∉ row.storageIds)
include notHeld

theorem isHealthy_add_of_held :
    ∀ id ∈ row.storageIds, (v.add node).isHealthy id = v.isHealthy id :=
  fun _ hid => isHealthy_add fun heq => notHeld (heq ▸ hid)

theorem misplaced_add : Plan.misplaced (v.add node) row = Plan.misplaced v row := by
  have hsources : Plan.sources (v.add node) row = Plan.sources v row :=
    List.filter_congr fun id hid =>
      congrArg not (isHealthy_add_of_held notHeld id hid)
  rw [Plan.misplaced, Plan.misplaced, hsources]

theorem datacenters_add :
    (Plan.start (v.add node) row).datacenters = (Plan.start v row).datacenters := by
  have hhealthy : row.storageIds.filter (v.add node).isHealthy =
      row.storageIds.filter v.isHealthy :=
    List.filter_congr (isHealthy_add_of_held notHeld)
  refine (congrArg (List.filterMap _) hhealthy).trans
    (List.filterMap_congr fun id hid => get?_add ?_)
  rintro rfl
  exact notHeld (List.mem_filter.1 hid).1

end NotHeld

theorem candidates_add (unlisted : node.storageId ∉ v.nodes.keys) :
    besides node.storageId
        ((Plan.start (v.add node) row).candidates (v.add node)) =
      (Plan.start v row).candidates v := by
  rw [Plan.candidates, Plan.candidates, ← besides_healthy_add unlisted]
  simp only [besides, List.filter_filter, Bool.and_comm]
  rfl

/-- A new node changes the plan of an object only from the first move to it on. -/
theorem moves_add
    (digest : String → Nat) (v : Inventory) (row : Row) {node : Node}
    (unlisted : node.storageId ∉ v.nodes.keys)
    (notHeld : node.storageId ∉ row.storageIds) :
    (Plan.ofRow digest (v.add node) row).moves = (Plan.ofRow digest v row).moves ∨
      ∃ common a rest,
        (Plan.ofRow digest (v.add node) row).moves = common ++ a :: rest ∧
          a.target = node.storageId ∧
            (∀ b ∈ common, b.target ≠ node.storageId) ∧
              common <+: (Plan.ofRow digest v row).moves := by
  have hmade : Plan.made digest (v.add node) row =
      picks digest row.objectId (Plan.misplaced v row) (Plan.start v row).datacenters
        ((Plan.start (v.add node) row).candidates (v.add node)) := by
    rw [Plan.made, misplaced_add notHeld, datacenters_add notHeld]
  rw [Plan.moves_ofRow (v := v.add node), Plan.moves_ofRow (v := v), hmade, Plan.made,
    ← candidates_add unlisted]
  rcases picks_besides digest row.objectId node.storageId (Plan.misplaced v row)
      (Plan.start v row).datacenters
      ((Plan.start (v.add node) row).candidates (v.add node)) with
    heq | ⟨common, pick, rest, heq, hpick, hcommon⟩
  · exact .inl (congrArg _ heq)
  · refine .inr ⟨common.map row.moveOf, row.moveOf pick, rest.map row.moveOf, ?_, hpick,
      ?_, hcommon.map row.moveOf⟩
    · rw [heq, List.map_append, List.map_cons]
    · intro b hb
      obtain ⟨p, hp, rfl⟩ := List.mem_map.1 hb
      exact (mem_besides.1 (node_mem_of_mem_picks (hcommon.subset hp))).2

/-- In the sample, the second move goes to the node of a new datacenter, and the first
one is the same with and without it. -/
theorem moves_add_sample :
    "5.stor" ∉ sampleInventory.nodes.keys ∧
      "5.stor" ∉ (sampleObject ["1.stor", "9.stor", "2.stor"]).storageIds ∧
      ∃ common a rest,
        (Plan.ofRow String.length (sampleInventory.add ⟨"5.stor", "north"⟩)
            (sampleObject ["1.stor", "9.stor", "2.stor"])).moves =
          common ++ a :: rest ∧
        a.target = "5.stor" ∧ (∀ b ∈ common, b.target ≠ "5.stor") ∧
        common <+: (Plan.ofRow String.length sampleInventory
          (sampleObject ["1.stor", "9.stor", "2.stor"])).moves := by
  have unlisted : "5.stor" ∉ sampleInventory.nodes.keys := by decide +kernel
  have notHeld : "5.stor" ∉ (sampleObject ["1.stor", "9.stor", "2.stor"]).storageIds := by
    decide +kernel
  have changed : (Plan.ofRow String.length (sampleInventory.add ⟨"5.stor", "north"⟩)
      (sampleObject ["1.stor", "9.stor", "2.stor"])).moves ≠
        (Plan.ofRow String.length sampleInventory
          (sampleObject ["1.stor", "9.stor", "2.stor"])).moves := by decide +kernel
  exact ⟨unlisted, notHeld, (moves_add String.length sampleInventory
    (sampleObject ["1.stor", "9.stor", "2.stor"]) unlisted notHeld).resolve_left changed⟩

end Add

end Placement
end Reclaim
