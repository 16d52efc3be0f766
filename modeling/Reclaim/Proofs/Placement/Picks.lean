import Mathlib.Data.List.MinMax
import Mathlib.Data.List.Nodup
import Mathlib.Data.Prod.Lex
import Reclaim.Placement.Planner

/-!
# Picking nodes one after the other

For each replica that has to move, a node of the lowest rank is picked among the
nodes that are left.  A pick takes its node away and makes the nodes of its
datacenter rank behind the others.  The picks end when no node is left.

Main results: `moves_ofRow` and `unplaceable_ofRow`, which tell a plan from its
picks, and `length_picks`, which says that no node is left while a replica has
none.
-/

namespace Reclaim
namespace Placement

section Lowest

variable {α : Type} {rank : α → Nat × Nat} {xs : List α} {x y : α}

theorem precedes_iff {a b : Nat × Nat} :
    precedes a b = true ↔ toLex a < toLex b := by
  simp [precedes, Prod.Lex.toLex_lt_toLex]

theorem lowest_eq_argmin (rank : α → Nat × Nat) (xs : List α) :
    lowest rank xs = xs.argmin fun x => toLex (rank x) := by
  induction xs with
  | nil => rfl
  | cons x xs ih =>
      rw [lowest, ih, List.argmin_cons]
      cases xs.argmin fun x => toLex (rank x) with
      | none => rfl
      | some y => simp only [precedes_iff]

theorem lowest_eq_none_iff : lowest rank xs = none ↔ xs = [] := by
  rw [lowest_eq_argmin, List.argmin_eq_none]

theorem mem_of_lowest (h : lowest rank xs = some x) : x ∈ xs := by
  rw [lowest_eq_argmin] at h
  exact List.argmin_mem h

theorem le_of_lowest (h : lowest rank xs = some x) (hy : y ∈ xs) :
    toLex (rank x) ≤ toLex (rank y) := by
  rw [lowest_eq_argmin] at h
  exact List.le_of_mem_argmin (f := fun x => toLex (rank x)) hy h

/-- An item of the lowest rank stays the first one when others are left out. -/
theorem lowest_filter
    {keep : α → Bool} (h : lowest rank xs = some x) (hx : keep x = true) :
    lowest rank (xs.filter keep) = some x := by
  induction xs generalizing x with
  | nil => cases h
  | cons y ys ih =>
      rw [lowest] at h
      split at h
      · next hnone =>
          obtain rfl := Option.some.inj h
          rw [lowest_eq_none_iff.1 hnone, List.filter_cons_of_pos hx]
          rfl
      · next z hz =>
          split at h
          · next hlt =>
              obtain rfl := Option.some.inj h
              by_cases hy : keep y = true
              · rw [List.filter_cons_of_pos hy, lowest, ih hz hx]
                exact if_pos hlt
              · rw [List.filter_cons_of_neg hy]
                exact ih hz hx
          · next hle =>
              obtain rfl := Option.some.inj h
              rw [List.filter_cons_of_pos hx, lowest]
              split
              · rfl
              · next w hw =>
                  -- `w` ranks no lower than `z`, which does not precede `y`.
                  have hzw := le_of_lowest hz (List.mem_filter.1 (mem_of_lowest hw)).1
                  rw [precedes_iff, not_lt] at hle
                  exact if_neg (mt precedes_iff.1 (hle.trans hzw).not_gt)

end Lowest

/-- A replica, by the node it is on, and the node that is picked for it. -/
structure Pick where
  source : String
  node : String × String

/-- The nodes with another id. -/
def besides (id : String) (nodes : List (String × String)) :
    List (String × String) :=
  nodes.filter fun n => n.1 != id

/-- The nodes that are picked for replicas, one after the other. -/
def picks (digest : String → Nat) (objectId : String) :
    List String → List String → List (String × String) → List Pick
  | [], _, _ => []
  | source :: sources, datacenters, nodes =>
      match lowest (rank digest objectId datacenters) nodes with
      | none => []
      | some node =>
          ⟨source, node⟩ ::
            picks digest objectId sources (node.2 :: datacenters)
              (besides node.1 nodes)

section Picks

variable {digest : String → Nat} {objectId : String} {sources datacenters : List String}
  {nodes : List (String × String)}

@[simp] theorem mem_besides {id : String} {n : String × String} :
    n ∈ besides id nodes ↔ n ∈ nodes ∧ n.1 ≠ id := by
  simp [besides]

@[simp] theorem picks_nil :
    picks digest objectId sources datacenters [] = [] := by
  cases sources <;> rfl

theorem picks_cons
    {source : String} {node : String × String}
    (h : lowest (rank digest objectId datacenters) nodes = some node) :
    picks digest objectId (source :: sources) datacenters nodes =
      ⟨source, node⟩ :: picks digest objectId sources (node.2 :: datacenters)
        (besides node.1 nodes) := by
  rw [picks, h]

/-- Nodes with different ids are those with another id and the one taken away. -/
theorem perm_besides
    {node : String × String} (distinct : (nodes.map Prod.fst).Nodup)
    (h : node ∈ nodes) : nodes.Perm (node :: besides node.1 nodes) := by
  have distinctNodes := List.Nodup.of_map Prod.fst distinct
  have absent : node ∉ besides node.1 nodes := fun hm => (mem_besides.1 hm).2 rfl
  refine (List.perm_ext_iff_of_nodup distinctNodes
    (List.nodup_cons.2 ⟨absent, distinctNodes.filter _⟩)).2 fun n => ?_
  rw [List.mem_cons, mem_besides]
  constructor
  · intro hn
    by_cases heq : n.1 = node.1
    · exact .inl (List.inj_on_of_nodup_map distinct hn h heq)
    · exact .inr ⟨hn, heq⟩
  · rintro (rfl | ⟨hn, -⟩)
    · exact h
    · exact hn

theorem nodup_besides {id : String} (distinct : (nodes.map Prod.fst).Nodup) :
    ((besides id nodes).map Prod.fst).Nodup :=
  distinct.sublist (List.filter_sublist.map Prod.fst)

theorem node_mem_of_mem_picks {p : Pick}
    (h : p ∈ picks digest objectId sources datacenters nodes) : p.node ∈ nodes := by
  fun_induction picks digest objectId sources datacenters nodes with
  | case1 => cases h
  | case2 => cases h
  | case3 source sources datacenters nodes node hlow ih =>
      rcases List.mem_cons.1 h with rfl | h
      · exact mem_of_lowest hlow
      · exact (mem_besides.1 (ih h)).1

/-- No node is picked twice. -/
theorem nodup_picks :
    ((picks digest objectId sources datacenters nodes).map
      fun p => p.node.1).Nodup := by
  fun_induction picks digest objectId sources datacenters nodes with
  | case1 => exact List.nodup_nil
  | case2 => exact List.nodup_nil
  | case3 source sources datacenters nodes node hlow ih =>
      refine List.nodup_cons.2 ⟨?_, ih⟩
      intro hm
      obtain ⟨p, hp, heq⟩ := List.mem_map.1 hm
      exact (mem_besides.1 (node_mem_of_mem_picks hp)).2 heq

/-- Nodes are picked as long as there are replicas and nodes left. -/
theorem length_picks (distinct : (nodes.map Prod.fst).Nodup) :
    (picks digest objectId sources datacenters nodes).length =
      min sources.length nodes.length := by
  fun_induction picks digest objectId sources datacenters nodes with
  | case1 => simp
  | case2 source sources datacenters nodes hnone =>
      rw [lowest_eq_none_iff.1 hnone]
      simp
  | case3 source sources datacenters nodes node hlow ih =>
      rw [List.length_cons, ih (nodup_besides distinct),
        (perm_besides distinct (mem_of_lowest hlow)).length_eq]
      simp

/-- The replicas come in their order, from the first one on. -/
theorem sources_picks :
    (picks digest objectId sources datacenters nodes).map Pick.source <+: sources := by
  fun_induction picks digest objectId sources datacenters nodes with
  | case1 => exact List.prefix_refl []
  | case2 => exact List.nil_prefix
  | case3 source sources datacenters nodes node hlow ih =>
      exact (List.prefix_cons_inj source).2 ih

end Picks

/-- The storage nodes in the metadata of an object, one for each replica. -/
def Row.storageIds (row : Row) : List String :=
  row.metadata.locations.map Location.storageId

/-- The move that a pick for a replica of the object asks for. -/
def Row.moveOf (row : Row) (p : Pick) : Action :=
  ⟨row.objectId, row.metadata.owner.getD "", p.source, p.node.1, row.shard,
    row.metadata.key⟩

namespace Plan

variable {digest : String → Nat} {v : Inventory} {row : Row} {p q : Plan}
  {source : String}

theorem move_of_no_candidates (h : p.candidates v = []) :
    p.move digest v row source = { p with unplaceable := p.unplaceable + 1 } := by
  rw [move, h]
  rfl

theorem move_of_lowest
    {node : String × String}
    (h : lowest (rank digest row.objectId p.datacenters) (p.candidates v) =
      some node) :
    p.move digest v row source =
      { p with
        holding := node.1 :: p.holding
        datacenters := node.2 :: p.datacenters
        moves := p.moves ++ [row.moveOf ⟨source, node⟩] } := by
  rw [move, h]
  rfl

/-- A node that is going to hold the object is no candidate any more. -/
theorem candidates_of_holding
    {id : String} (h : q.holding = id :: p.holding) :
    q.candidates v = besides id (p.candidates v) := by
  rw [candidates, candidates, besides, List.filter_filter, h]
  refine List.filter_congr fun n _ => ?_
  rw [List.contains_cons, Bool.not_or]
  rfl

/-- Moving replicas one after the other makes the moves that the picks ask for. -/
theorem foldl_move (sources : List String) (p : Plan) :
    (sources.foldl (move digest v row) p).moves =
        p.moves ++ (picks digest row.objectId sources p.datacenters
          (p.candidates v)).map row.moveOf ∧
      (sources.foldl (move digest v row) p).unplaceable =
        p.unplaceable + (sources.length - (picks digest row.objectId sources
          p.datacenters (p.candidates v)).length) := by
  induction sources generalizing p with
  | nil => simp [picks]
  | cons source sources ih =>
      rw [List.foldl_cons, picks]
      split
      · next hnone =>
          have hempty := lowest_eq_none_iff.1 hnone
          have hleft : candidates v { p with unplaceable := p.unplaceable + 1 } = [] :=
            hempty
          rw [move_of_no_candidates hempty, (ih _).1, (ih _).2, hleft, picks_nil]
          simp only [List.map_nil, List.length_nil, List.length_cons, true_and]
          omega
      · next node hlow =>
          rw [move_of_lowest hlow, (ih _).1, (ih _).2,
            candidates_of_holding (p := p) rfl]
          simp

/-- The replicas that have to move: those of an object on nodes that are not healthy. -/
def misplaced (v : Inventory) (row : Row) : List String :=
  if row.metadata.isObject then sources v row else []

theorem misplaced_of_isObject (h : row.metadata.isObject = true) :
    misplaced v row = row.storageIds.filter fun id => !v.isHealthy id :=
  if_pos h

theorem misplaced_prefix :
    misplaced v row <+: row.storageIds.filter fun id => !v.isHealthy id := by
  rw [misplaced]
  split
  · exact List.prefix_refl _
  · exact List.nil_prefix

theorem misplaced_subset : misplaced v row ⊆ row.storageIds :=
  List.Subset.trans misplaced_prefix.subset List.filter_sublist.subset

theorem ofRow_eq :
    ofRow digest v row = (misplaced v row).foldl (move digest v row) (start v row) := by
  rw [ofRow, misplaced]
  split <;> rfl

/-- The picks for the replicas of an object. -/
def made (digest : String → Nat) (v : Inventory) (row : Row) : List Pick :=
  picks digest row.objectId (misplaced v row) (start v row).datacenters
    ((start v row).candidates v)

theorem moves_ofRow : (ofRow digest v row).moves = (made digest v row).map row.moveOf := by
  rw [ofRow_eq, (foldl_move _ _).1]
  rfl

theorem unplaceable_ofRow :
    (ofRow digest v row).unplaceable =
      (misplaced v row).length - (made digest v row).length := by
  rw [ofRow_eq, (foldl_move _ _).2]
  exact Nat.zero_add _

end Plan

end Placement
end Reclaim
