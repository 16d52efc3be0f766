import Mathlib.Data.List.Perm.Subperm
import Reclaim.Proofs.Placement.Moves

/-!
# Carrying out plans

The moves of an object are carried out by putting, for each move in its turn,
the target in the place of the next replica on the source.  Then the healthy
replicas are still there, the targets hold replicas, and the stranded replicas
are those that found no place.  If there are any, no node is free any more.

Main results: `repointed_repoint` and `moves_carryOut`.
-/

namespace Reclaim
namespace Placement

/-- The replicas after moves, each of which takes the next replica on its source. -/
def repoint : List Action → List Location → List Location
  | _, [] => []
  | [], locations => locations
  | a :: moves, l :: locations =>
      if l.storageId = a.source then
        { l with storageId := a.target } :: repoint moves locations
      else
        l :: repoint (a :: moves) locations

/-- The object after moves. -/
def Row.carryOut (row : Row) (moves : List Action) : Row :=
  { row with
    metadata := { row.metadata with
      locations := repoint moves row.metadata.locations } }

section Repoint

variable {v : Inventory} {moves : List Action} {locations : List Location}

theorem repoint_nil : repoint [] locations = locations := by
  cases locations <;> rfl

theorem repoint_of_ne
    {l : Location} (h : ∀ a ∈ moves, l.storageId ≠ a.source) :
    repoint moves (l :: locations) = l :: repoint moves locations := by
  cases moves with
  | nil => rw [repoint_nil, repoint_nil]
  | cons a moves => rw [repoint, if_neg (h a List.mem_cons_self)]

/-- The nodes of an object after moves of its first replicas that are not on healthy
nodes. -/
structure Repointed (v : Inventory) (moves : List Action) (ids after : List String) :
    Prop where
  unhealthy : after.filter (fun id => !v.isHealthy id) =
    (ids.filter fun id => !v.isHealthy id).drop moves.length
  kept : ∀ id ∈ ids, v.isHealthy id = true → id ∈ after
  reached : ∀ a ∈ moves, a.target ∈ after

namespace Repointed

variable {ids after : List String} {id : String}

theorem refl (v : Inventory) (ids : List String) : Repointed v [] ids ids :=
  ⟨rfl, fun _ hid _ => hid, List.forall_mem_nil _⟩

theorem keep
    (h : Repointed v moves ids after) (healthy : v.isHealthy id = true) :
    Repointed v moves (id :: ids) (id :: after) where
  unhealthy := by
    rw [List.filter_cons_of_neg (by simp [healthy]),
      List.filter_cons_of_neg (by simp [healthy]), h.unhealthy]
  kept other hother hhealthy := by
    rcases List.mem_cons.1 hother with rfl | hother
    · exact List.mem_cons_self
    · exact List.mem_cons_of_mem _ (h.kept other hother hhealthy)
  reached a ha := List.mem_cons_of_mem _ (h.reached a ha)

theorem move
    {a : Action} (h : Repointed v moves ids after) (unhealthy : v.isHealthy id = false)
    (healthy : v.isHealthy a.target = true) :
    Repointed v (a :: moves) (id :: ids) (a.target :: after) where
  unhealthy := by
    rw [List.filter_cons_of_neg (by simp [healthy]),
      List.filter_cons_of_pos (by simp [unhealthy]), h.unhealthy]
    rfl
  kept other hother hhealthy := by
    rcases List.mem_cons.1 hother with rfl | hother
    · rw [unhealthy] at hhealthy
      cases hhealthy
    · exact List.mem_cons_of_mem _ (h.kept other hother hhealthy)
  reached b hb := by
    rcases List.mem_cons.1 hb with rfl | hb
    · exact List.mem_cons_self
    · exact List.mem_cons_of_mem _ (h.reached b hb)

end Repointed

theorem repointed_repoint
    (healthy : ∀ a ∈ moves, v.isHealthy a.target = true)
    (first : moves.map Action.source <+:
      (locations.map Location.storageId).filter fun id => !v.isHealthy id) :
    Repointed v moves (locations.map Location.storageId)
      ((repoint moves locations).map Location.storageId) := by
  induction locations generalizing moves with
  | nil =>
      obtain rfl : moves = [] := by simpa using first
      exact .refl v []
  | cons l locations ih =>
      rw [List.map_cons] at first
      by_cases hl : v.isHealthy l.storageId = true
      · -- The sources are not healthy, so that no move takes this replica.
        rw [List.filter_cons_of_neg (by simp [hl])] at first
        have hne : ∀ a ∈ moves, l.storageId ≠ a.source := by
          intro a ha heq
          have hsource := (List.mem_filter.1 (first.subset (List.mem_map_of_mem ha))).2
          simp [← heq, hl] at hsource
        rw [repoint_of_ne hne]
        exact (ih healthy first).keep hl
      · -- The next move, if there is one, takes this replica.
        rw [List.filter_cons_of_pos (by simp [hl])] at first
        cases moves with
        | nil =>
            rw [repoint_nil]
            exact .refl v _
        | cons a moves =>
            obtain ⟨hsource, hrest⟩ := List.cons_prefix_cons.1 first
            obtain ⟨ha, hmoves⟩ := List.forall_mem_cons.1 healthy
            rw [repoint, if_pos hsource.symm]
            exact (ih hmoves hrest).move (Bool.not_eq_true _ ▸ hl) ha

end Repoint

section CarryOut

variable {digest : String → Nat} {v : Inventory} {row : Row} {moves : List Action}

/-- Moves to all free nodes leave none of them free. -/
theorem freeNodes_carryOut
    (h : Repointed v moves row.storageIds (row.carryOut moves).storageIds)
    (all : freeNodes v row ⊆ moves.map Action.target) :
    freeNodes v (row.carryOut moves) = [] := by
  refine List.eq_nil_iff_forall_not_mem.2 fun id hid => ?_
  obtain ⟨hhealthy, hnot⟩ := mem_freeNodes.1 hid
  have hfree : id ∈ freeNodes v row :=
    mem_freeNodes.2 ⟨hhealthy, fun hheld => hnot (h.kept id hheld hhealthy)⟩
  obtain ⟨a, ha, rfl⟩ := List.mem_map.1 (all hfree)
  exact hnot (h.reached a ha)

theorem repointed_carryOut (digest : String → Nat) (v : Inventory) (row : Row) :
    Repointed v (Plan.ofRow digest v row).moves row.storageIds
      (row.carryOut (Plan.ofRow digest v row).moves).storageIds :=
  repointed_repoint (fun _ ha => (mem_freeNodes.1 (target_mem_freeNodes ha)).1)
    ((sources_moves digest v row).trans Plan.misplaced_prefix)

theorem misplaced_carryOut
    (h : Repointed v moves row.storageIds (row.carryOut moves).storageIds) :
    Plan.misplaced v (row.carryOut moves) =
      (Plan.misplaced v row).drop moves.length := by
  have hobject : (row.carryOut moves).metadata.isObject = row.metadata.isObject := rfl
  rw [Plan.misplaced, Plan.misplaced, hobject]
  split
  · exact h.unhealthy
  · exact List.drop_nil.symm

/-- If there are more misplaced replicas than free nodes, all free nodes are targets. -/
theorem freeNodes_subset_targets
    (few : (freeNodes v row).length ≤ (Plan.misplaced v row).length) :
    freeNodes v row ⊆ (Plan.ofRow digest v row).moves.map Action.target := by
  have targets : (Plan.ofRow digest v row).moves.map Action.target ⊆ freeNodes v row := by
    intro id hid
    obtain ⟨a, ha, rfl⟩ := List.mem_map.1 hid
    exact target_mem_freeNodes ha
  have asMany : (freeNodes v row).length ≤
      ((Plan.ofRow digest v row).moves.map Action.target).length := by
    rw [List.length_map, length_moves, min_eq_right few]
  exact ((nodup_targets.subperm targets).perm_of_length_le asMany).symm.subset

/-- Once the moves of an object are carried out, it has none any more, and the
replicas that found no place still find none. -/
theorem moves_carryOut (digest : String → Nat) (v : Inventory) (row : Row) :
    (Plan.ofRow digest v (row.carryOut (Plan.ofRow digest v row).moves)).moves = [] ∧
      (Plan.ofRow digest v (row.carryOut (Plan.ofRow digest v row).moves)).unplaceable =
        (Plan.ofRow digest v row).unplaceable := by
  have repointed := repointed_carryOut digest v row
  have hmisplaced := misplaced_carryOut repointed
  have settled : (Plan.ofRow digest v
      (row.carryOut (Plan.ofRow digest v row).moves)).moves = [] := by
    apply List.eq_nil_of_length_eq_zero
    rw [length_moves, hmisplaced, length_moves]
    rcases le_total (Plan.misplaced v row).length (freeNodes v row).length with
      enough | few
    · rw [min_eq_left enough, List.drop_length]
      exact Nat.zero_min _
    · rw [freeNodes_carryOut repointed (freeNodes_subset_targets few)]
      exact Nat.min_zero _
  refine ⟨settled, ?_⟩
  rw [unplaceable_eq, settled, hmisplaced, List.length_drop, unplaceable_eq]
  rfl

end CarryOut

end Placement
end Reclaim
