import Reclaim.Proofs.Object.Death
import Reclaim.Proofs.Stream.Run

/-!
# What comes of the objects of a stream

A run over a stream in order works off the history of each object.  An object
whose deciding tombstone is past the grace period and lists its replicas gives
the deletion of that tombstone and the removal of each replica; each surplus
tombstone past the grace period gives its own deletion.

Main results: `run_eq_histories`, `removeReplica_mem_iff` and
`deleteTombstone_mem_iff`.
-/

namespace Reclaim
namespace Object

/-- The object that an action is about. -/
def Action.objectId : Action → String
  | deleteTombstone objectId _ _ => objectId
  | removeReplica r => r.objectId

/-- The replica of an object at a place that its metadata lists. -/
def Replica.ofLocation
    (objectId : String) (date : Time.Instant) (owner : String)
    (l : Location) : Replica :=
  ⟨objectId, l.storageId, l.serverUuid, l.zoneUuid, owner, date⟩

/-- What comes of an object with the given history. -/
def actionsOf (policy : GracePolicy) (objectId : String)
    (rows : List Row) : List Action :=
  ((Death.ofRows rows).close policy objectId).1

/-- A payload lists replicas if its metadata can be read and names an owner. -/
theorem ofPayload_eq_ok_iff
    {objectId : String} {date : Time.Instant} {payload : Json.Value}
    {replicas : List Replica} :
    Replica.ofPayload objectId date payload = .ok replicas ↔
      ∃ value metadata owner, payload.get? "_value" = some value ∧
        Metadata.ofValue value = .ok metadata ∧
        metadata.owner = some owner ∧
        replicas =
          metadata.locations.map (Replica.ofLocation objectId date owner) := by
  unfold Replica.ofPayload
  cases payload.get? "_value" with
  | none => simp
  | some value =>
      cases hm : Metadata.ofValue value with
      | error e => simp [hm, bind, Except.bind]
      | ok metadata =>
          cases ho : metadata.owner with
          | none => simp [hm, ho, bind, Except.bind]
          | some owner =>
              simp only [bind, Except.bind, hm, ho, Except.ok.injEq,
                Option.some.injEq, exists_and_left, exists_eq_left']
              exact eq_comm

/-- Replicas carry the object and the date of their tombstone. -/
theorem of_mem_ofPayload
    {objectId : String} {date : Time.Instant} {payload : Json.Value}
    {replicas : List Replica} {replica : Replica}
    (h : Replica.ofPayload objectId date payload = .ok replicas)
    (hm : replica ∈ replicas) :
    replica.objectId = objectId ∧ replica.date = date := by
  obtain ⟨value, metadata, owner, _, _, _, rfl⟩ :=
    ofPayload_eq_ok_iff.1 h
  obtain ⟨l, _, rfl⟩ := List.mem_map.1 hm
  exact ⟨rfl, rfl⟩

section Close

variable {policy : GracePolicy} {objectId shard : String}
variable {date : Time.Instant} {t : Tombstone} {replica : Replica}
variable {rows : List Row}

/-- The deciding tombstone comes first, then the surplus. -/
theorem actionsOf_eq :
    actionsOf policy objectId rows =
      (Death.ofRows rows).pending.toList.flatMap
          (fun t => (t.close policy objectId).1) ++
        (Death.ofRows rows).surplus.flatMap
          fun x => (x.close policy objectId).1 := by
  simp only [actionsOf, Death.close, List.flatMap_append, List.flatMap_map]

/-- A tombstone is closed with actions if it is past the grace period and lists its replicas. -/
theorem close_eq_of_listed
    {replicas : List Replica} (he : policy.isExpired t.date)
    (hp : Replica.ofPayload objectId t.date t.payload = .ok replicas) :
    (t.close policy objectId).1 =
      .deleteTombstone objectId t.date t.shard ::
        replicas.map .removeReplica := by
  simp [Tombstone.close, he, hp]

/-- Any other tombstone is closed without actions. -/
theorem close_eq_nil
    (h : ∀ replicas, policy.isExpired t.date →
      Replica.ofPayload objectId t.date t.payload ≠ .ok replicas) :
    (t.close policy objectId).1 = [] := by
  unfold Tombstone.close
  by_cases he : policy.isExpired t.date
  · cases hp : Replica.ofPayload objectId t.date t.payload with
    | error e => simp [he]
    | ok replicas => exact absurd hp (h replicas he)
  · simp [he]

/-- The actions of a tombstone, if it has any. -/
theorem mem_close_iff {a : Action} :
    a ∈ (t.close policy objectId).1 ↔
      ∃ replicas, policy.isExpired t.date ∧
        Replica.ofPayload objectId t.date t.payload = .ok replicas ∧
        (a = .deleteTombstone objectId t.date t.shard ∨
          ∃ replica ∈ replicas, a = .removeReplica replica) := by
  constructor
  · intro h
    by_cases hn : ∀ replicas, policy.isExpired t.date →
        Replica.ofPayload objectId t.date t.payload ≠ .ok replicas
    · rw [close_eq_nil hn] at h
      cases h
    · simp only [not_forall, not_not] at hn
      obtain ⟨replicas, he, hp⟩ := hn
      rw [close_eq_of_listed he hp] at h
      refine ⟨replicas, he, hp, ?_⟩
      rcases List.mem_cons.1 h with rfl | h
      · exact .inl rfl
      · obtain ⟨replica, hm, rfl⟩ := List.mem_map.1 h
        exact .inr ⟨replica, hm, rfl⟩
  · rintro ⟨replicas, he, hp, rfl | ⟨replica, hm, rfl⟩⟩
    · rw [close_eq_of_listed he hp]
      exact List.mem_cons_self
    · rw [close_eq_of_listed he hp]
      exact List.mem_cons_of_mem _ (List.mem_map_of_mem hm)

theorem mem_surplus_close_iff {x : Surplus} {a : Action} :
    a ∈ (x.close policy objectId).1 ↔
      policy.isExpired x.date ∧
        a = .deleteTombstone objectId x.date x.shard := by
  unfold Surplus.close
  by_cases he : policy.isExpired x.date
  · simp [he]
  · simp [he]

/-- The surplus of an object is never a source of removals. -/
theorem removeReplica_not_mem_surplus (xs : List Surplus) :
    .removeReplica replica ∉
      xs.flatMap fun x => (x.close policy objectId).1 := by
  intro h
  obtain ⟨x, _, hx⟩ := List.mem_flatMap.1 h
  cases (mem_surplus_close_iff.1 hx).2

/-- A replica is removed if the tombstone in force is past the grace period and lists it. -/
theorem removeReplica_mem_iff :
    .removeReplica replica ∈ actionsOf policy objectId rows ↔
      ∃ u t replicas, InForce rows u ∧ u.tombstone? = some t ∧
        policy.isExpired t.date ∧
        Replica.ofPayload objectId t.date t.payload = .ok replicas ∧
        replica ∈ replicas := by
  rw [actionsOf_eq, List.mem_append]
  constructor
  · rintro (h | h)
    · obtain ⟨t, ht, ha⟩ := List.mem_flatMap.1 h
      obtain ⟨u, hu, hut⟩ :=
        pending_eq_some_iff.1 (Option.mem_toList.1 ht)
      obtain ⟨replicas, he, hp, ha | ⟨r, hr, ha⟩⟩ := mem_close_iff.1 ha
      · cases ha
      · cases ha
        exact ⟨u, t, replicas, hu, hut, he, hp, hr⟩
    · exact absurd h (removeReplica_not_mem_surplus _)
  · rintro ⟨u, t, replicas, hu, hut, he, hp, hm⟩
    refine .inl (List.mem_flatMap.2 ⟨t, ?_, ?_⟩)
    · exact Option.mem_toList.2 (pending_eq_some_iff.2 ⟨u, hu, hut⟩)
    · exact mem_close_iff.2 ⟨replicas, he, hp, .inr ⟨replica, hm, rfl⟩⟩

/-- A removal carries the date of the tombstone in force. -/
theorem exists_inForce_of_removeReplica
    (h : .removeReplica replica ∈ actionsOf policy objectId rows) :
    ∃ u, InForce rows u ∧ u.date = replica.date := by
  obtain ⟨u, t, replicas, hu, hut, _, hp, hm⟩ := removeReplica_mem_iff.1 h
  have hdate := (Row.tombstone?_eq_some_iff.1 hut).1
  exact ⟨u, hu, hdate.trans (of_mem_ofPayload hp hm).2.symm⟩

/-- The deciding tombstone is deleted if it is past the grace period and lists its replicas. -/
theorem deleteTombstone_mem_pending_iff :
    .deleteTombstone objectId date shard ∈
        (Death.ofRows rows).pending.toList.flatMap
          (fun t => (t.close policy objectId).1) ↔
      policy.isExpired date ∧
        ∃ u payload replicas, InForce rows u ∧
          u.tombstone? = some ⟨date, payload, shard⟩ ∧
          Replica.ofPayload objectId date payload = .ok replicas := by
  rw [List.mem_flatMap]
  constructor
  · rintro ⟨t, ht, ha⟩
    obtain ⟨u, hu, hut⟩ := pending_eq_some_iff.1 (Option.mem_toList.1 ht)
    obtain ⟨replicas, he, hp, ha | ⟨r, _, ha⟩⟩ := mem_close_iff.1 ha
    · cases ha
      exact ⟨he, u, t.payload, replicas, hu, hut, hp⟩
    · cases ha
  · rintro ⟨he, u, payload, replicas, hu, hut, hp⟩
    refine ⟨⟨date, payload, shard⟩, ?_, ?_⟩
    · exact Option.mem_toList.2 (pending_eq_some_iff.2 ⟨u, hu, hut⟩)
    · exact mem_close_iff.2 ⟨replicas, he, hp, .inl rfl⟩

/-- Surplus is deleted if it is past the grace period. -/
theorem deleteTombstone_mem_surplus_iff :
    .deleteTombstone objectId date shard ∈
        (Death.ofRows rows).surplus.flatMap
          (fun x => (x.close policy objectId).1) ↔
      policy.isExpired date ∧ Lingers rows ⟨date, shard⟩ := by
  rw [List.mem_flatMap]
  constructor
  · rintro ⟨x, hx, ha⟩
    obtain ⟨he, ha⟩ := mem_surplus_close_iff.1 ha
    cases ha
    exact ⟨he, mem_surplus_iff.1 hx⟩
  · rintro ⟨he, hl⟩
    exact ⟨_, mem_surplus_iff.2 hl, mem_surplus_close_iff.2 ⟨he, rfl⟩⟩

/-- A tombstone is deleted if it is past the grace period and decides or lingers. -/
theorem deleteTombstone_mem_iff :
    .deleteTombstone objectId date shard ∈ actionsOf policy objectId rows ↔
      policy.isExpired date ∧
        ((∃ u payload replicas, InForce rows u ∧
            u.tombstone? = some ⟨date, payload, shard⟩ ∧
            Replica.ofPayload objectId date payload = .ok replicas) ∨
          Lingers rows ⟨date, shard⟩) := by
  rw [actionsOf_eq, List.mem_append, deleteTombstone_mem_pending_iff,
    deleteTombstone_mem_surplus_iff, and_or_left]

/-- Whatever comes of an object is about that object. -/
theorem objectId_of_mem_actionsOf {a : Action}
    (h : a ∈ actionsOf policy objectId rows) :
    a.objectId = objectId := by
  rw [actionsOf_eq, List.mem_append] at h
  rcases h with h | h
  · obtain ⟨t, _, ha⟩ := List.mem_flatMap.1 h
    obtain ⟨replicas, _, hp, rfl | ⟨r, hr, rfl⟩⟩ := mem_close_iff.1 ha
    · rfl
    · exact (of_mem_ofPayload hp hr).1
  · obtain ⟨x, _, ha⟩ := List.mem_flatMap.1 h
    rw [(mem_surplus_close_iff.1 ha).2]
    rfl

end Close

section Run

variable {policy : GracePolicy} {rows : List Row} {objectId : String}

theorem names_follow_keys : Stream.NamesFollow Row.key Row.objectId :=
  .of_fst fun _ => rfl

/-- The objects of a stream. -/
abbrev objects (rows : List Row) : List String :=
  Stream.names Row.objectId rows

/-- A run over a stream in order works off the history of each object. -/
theorem run_eq_histories (policy : GracePolicy)
    (h : Stream.InOrder Row.key rows) :
    ((collector policy).run .start rows).2 =
      .ok ((objects rows).flatMap fun objectId =>
        actionsOf policy objectId (history objectId rows)) :=
  (grouping policy).groupwise.run_eq_names names_follow_keys h

/-- An object without rows gives no actions. -/
theorem actionsOf_history_of_not_mem
    (h : objectId ∉ objects rows) :
    actionsOf policy objectId (history objectId rows) = [] := by
  have hnil : history objectId rows = [] := by
    apply List.filter_eq_nil_iff.2
    intro r hr
    have hne : r.objectId ≠ objectId :=
      fun heq => h (Stream.mem_names.2 ⟨r, hr, heq⟩)
    simpa using hne
  rw [hnil]
  rfl

/-- The actions about an object are those of its history. -/
theorem filter_run_eq_actionsOf
    {actions : List Action} (h : Stream.InOrder Row.key rows)
    (hr : ((collector policy).run .start rows).2 = .ok actions)
    (objectId : String) :
    actions.filter (fun a => a.objectId = objectId) =
      actionsOf policy objectId (history objectId rows) := by
  rw [run_eq_histories policy h, Except.ok.injEq] at hr
  have hn := Stream.pairwise_names names_follow_keys h
  rw [← hr, Stream.filter_flatMap_names hn
    (fun _ _ ha => objectId_of_mem_actionsOf ha)]
  by_cases hm : objectId ∈ objects rows
  · rw [if_pos hm]
  · rw [if_neg hm, actionsOf_history_of_not_mem hm]

/-- An action is there as many times as it comes of its object. -/
theorem count_run_eq_count_actionsOf
    {actions : List Action} (h : Stream.InOrder Row.key rows)
    (hr : ((collector policy).run .start rows).2 = .ok actions)
    (a : Action) :
    actions.count a =
      (actionsOf policy a.objectId (history a.objectId rows)).count a := by
  rw [← filter_run_eq_actionsOf h hr, List.count_filter]
  exact decide_eq_true rfl

theorem mem_run_iff_mem_actionsOf
    {actions : List Action} {a : Action}
    (h : Stream.InOrder Row.key rows)
    (hr : ((collector policy).run .start rows).2 = .ok actions) :
    a ∈ actions ↔
      a ∈ actionsOf policy a.objectId (history a.objectId rows) := by
  rw [← filter_run_eq_actionsOf h hr, List.mem_filter]
  simp

end Run

end Object
end Reclaim
