import Mathlib.Tactic.Choose
import Reclaim.Proofs.Object.Actions

/-!
# Removing the replicas of objects

Replicas are removed on account of one tombstone of their object: the one in
force at the end of its history.  No later live row supersedes it, and its own
deletion comes right before the removals.

The first tombstone that survives all live rows is the one in force, unless an
older tombstone was still in force when it came.  In that case a live row of its
very date takes the older one out of force, and the survivor stays surplus: it
is deleted, and its replicas are left where they are.

Main results: `removals_stem_from_tombstones` and `removals_of_first_surviving`.
-/

namespace Reclaim
namespace Object

/-- The row of a tombstone of an object. -/
def Tombstone.row (t : Tombstone) (objectId : String) : Row :=
  ⟨objectId, t.date, .dead t.payload t.shard⟩

theorem Tombstone.tombstone?_row (t : Tombstone) (objectId : String) :
    (t.row objectId).tombstone? = some t := rfl

theorem Row.eq_row_of_tombstone?
    {r : Row} {t : Tombstone} (h : r.tombstone? = some t) :
    r = t.row r.objectId := by
  obtain ⟨hd, hs⟩ := Row.tombstone?_eq_some_iff.1 h
  obtain ⟨objectId, date, state⟩ := r
  cases hd
  cases hs
  rfl

section Source

variable {policy : GracePolicy} {objectId : String} {rows : List Row}

/-- Where a value stands in what is made of a list, part by part. -/
theorem exists_split_of_flatMap_eq
    {α β : Type} {l : List α} {f : α → List β} {before after : List β}
    {b : β} (h : l.flatMap f = before ++ b :: after) :
    ∃ a ∈ l, ∃ first part rest, f a = part ++ b :: rest ∧
      before = first ++ part := by
  induction l generalizing before with
  | nil => simp at h
  | cons a l ih =>
      rw [List.flatMap_cons, List.append_eq_append_iff] at h
      rcases h with ⟨more, rfl, hl⟩ | ⟨more, ha, hb⟩
      · obtain ⟨c, hc, first, part, rest, hf, rfl⟩ := ih hl
        exact ⟨c, List.mem_cons_of_mem _ hc, f a ++ first, part, rest, hf,
          by simp⟩
      · cases more with
        | nil =>
            have hl : l.flatMap f = [] ++ b :: after := hb.symm
            obtain ⟨c, hc, first, part, rest, hf, hfirst⟩ := ih hl
            obtain ⟨rfl, rfl⟩ := List.nil_eq_append_iff.1 hfirst
            exact ⟨c, List.mem_cons_of_mem _ hc, before, [], rest, hf,
              by simp⟩
        | cons b' more =>
            rw [List.cons_append] at hb
            cases hb
            exact ⟨a, List.mem_cons_self, [], before, more, ha, rfl⟩

theorem surplus_ne_append_removal
    {replica : Replica} (xs : List Surplus) (before after : List Action) :
    (xs.flatMap fun x => (x.close policy objectId).1) ≠
      before ++ .removeReplica replica :: after := by
  intro h
  have hm : Action.removeReplica replica ∈
      xs.flatMap fun x => (x.close policy objectId).1 := by
    rw [h]
    exact List.mem_append_right _ List.mem_cons_self
  exact removeReplica_not_mem_surplus xs hm

/-- A removal follows the deletion of the deciding tombstone, with removals between them. -/
theorem exists_of_actionsOf_eq
    {before after : List Action} {replica : Replica}
    (h : actionsOf policy objectId rows =
      before ++ .removeReplica replica :: after) :
    ∃ u t replicas between rest, InForce rows u ∧ u.tombstone? = some t ∧
      policy.isExpired t.date ∧
      Replica.ofPayload objectId t.date t.payload = .ok replicas ∧
      replicas = between ++ replica :: rest ∧
      before = .deleteTombstone objectId t.date t.shard ::
        between.map .removeReplica := by
  have hm : Action.removeReplica replica ∈ actionsOf policy objectId rows := by
    rw [h]
    simp
  obtain ⟨u, t, replicas, hu, hut, he, hp, _⟩ := removeReplica_mem_iff.1 hm
  have ht := pending_eq_some_iff.2 ⟨u, hu, hut⟩
  rw [actionsOf_eq, ht, Option.toList_some, List.flatMap_singleton,
    close_eq_of_listed he hp, List.cons_append] at h
  cases before with
  | nil =>
      rw [List.nil_append] at h
      cases (List.cons.inj h).1
  | cons a before =>
      rw [List.cons_append] at h
      obtain ⟨ha, htail⟩ := List.cons.inj h
      subst ha
      rcases List.append_eq_append_iff.1 htail with
        ⟨more, rfl, hs⟩ | ⟨more, hr, hs⟩
      · exact absurd hs (surplus_ne_append_removal _ _ _)
      · cases more with
        | nil =>
            exact absurd hs.symm (surplus_ne_append_removal _ [] _)
        | cons b more =>
            rw [List.cons_append] at hs
            cases (List.cons.inj hs).1
            obtain ⟨between, rest, rfl, rfl, hrest⟩ :=
              List.map_eq_append_iff.1 hr
            obtain ⟨r, rest, rfl, hr, _⟩ := List.map_eq_cons_iff.1 hrest
            cases hr
            exact ⟨u, t, _, between, rest, hu, hut, he, hp, rfl, rfl⟩

end Source

/--
The removals of replicas stem from the tombstones at the given places of the
input.  No live row of the object is later than its tombstone, which is past the
grace period and lists the replica, and the removal follows the deletion of the
tombstone with nothing but removals of replicas that it lists in between.
-/
def RemovalsStem
    (policy : GracePolicy) (rows : List Row) (source : String → Nat)
    (actions : List Action) : Prop :=
  ∀ before replica after,
    actions = before ++ .removeReplica replica :: after →
      ∃ t : Tombstone,
        rows[source replica.objectId]? = some (t.row replica.objectId) ∧
        ¬ Superseded (history replica.objectId rows) t.date ∧
        policy.isExpired t.date ∧
        ∃ replicas,
          Replica.ofPayload replica.objectId t.date t.payload =
            .ok replicas ∧
          ∃ earlier between rest,
            replicas = between ++ replica :: rest ∧
            before = earlier ++
              .deleteTombstone replica.objectId t.date t.shard ::
                between.map .removeReplica

/-- All removals of replicas of an object stem from one tombstone in the input. -/
theorem removals_stem_from_tombstones
    (policy : GracePolicy) {rows : List Row}
    (h : Stream.InOrder Row.key rows) :
    ∃ actions, ((collector policy).run .start rows).2 = .ok actions ∧
      ∃ source, RemovalsStem policy rows source actions := by
  have hsource : ∀ objectId : String, ∃ n : Nat, ∀ u : Row,
      InForce (history objectId rows) u → rows[n]? = some u := by
    intro objectId
    by_cases hex : ∃ u, InForce (history objectId rows) u
    · obtain ⟨u, hu⟩ := hex
      obtain ⟨n, hn⟩ :=
        List.mem_iff_getElem?.1 (Stream.mem_rowsOf.1 hu.mem).1
      exact ⟨n, fun v hv => hu.unique hv ▸ hn⟩
    · exact ⟨0, fun u hu => absurd ⟨u, hu⟩ hex⟩
  choose source hsource using hsource
  refine ⟨_, run_eq_histories policy h, source, ?_⟩
  intro before replica after hsplit
  obtain ⟨objectId, _, first, part, last, hpart, rfl⟩ :=
    exists_split_of_flatMap_eq hsplit
  obtain ⟨u, t, replicas, between, rest, hu, hut, he, hp, hr, rfl⟩ :=
    exists_of_actionsOf_eq hpart
  have hid : replica.objectId = objectId :=
    (of_mem_ofPayload hp (by rw [hr]; simp)).1
  subst hid
  have hrow : u = t.row replica.objectId := by
    rw [Row.eq_row_of_tombstone? hut, (Stream.mem_rowsOf.1 hu.mem).2]
  have hdate := (Row.tombstone?_eq_some_iff.1 hut).1
  refine ⟨t, ?_, ?_, he, replicas, hp, first, between, rest, hr, rfl⟩
  · rw [hsource _ u hu, hrow]
  · exact hdate ▸ hu.not_superseded (ordered_history h)

section Sample

/-- A grace period of ten seconds before the second 100. -/
def samplePolicy : GracePolicy :=
  ⟨.wholeSecond 100, 10000000000⟩

/-- The row of a tombstone that lists a replica on each of the storage nodes. -/
def sampleTombstone (second : Int) (shard : String)
    (storageIds : List String) : Tombstone where
  date := .wholeSecond second
  payload :=
    .object [("_value", .object
      [("key", .string "/a/stor/x"), ("owner", .string "a"),
        ("sharks", .array (storageIds.map fun s =>
          .object [("manta_storage_id", .string s)])),
        ("type", .string "object")])]
  shard := shard

/-- An object that dies, comes back, dies for good and is deleted once more. -/
def sampleRows : List Row :=
  [(sampleTombstone 1 "s1" ["1.stor"]).row "x",
    ⟨"x", .wholeSecond 2, .live⟩,
    (sampleTombstone 3 "s1" ["2.stor", "3.stor"]).row "x",
    (sampleTombstone 4 "s2" ["2.stor"]).row "x"]

/-- The replica on a storage node that a tombstone of the sample lists. -/
def sampleReplica (second : Int) (storageId : String) : Replica :=
  ⟨"x", storageId, none, none, "a", .wholeSecond second⟩

/-- The removals of the sample stem from its second tombstone. -/
theorem removals_of_sample_stem :
    Stream.InOrder Row.key sampleRows ∧
      ∃ source, RemovalsStem samplePolicy sampleRows source
        [.deleteTombstone "x" (.wholeSecond 3) "s1",
          .removeReplica (sampleReplica 3 "2.stor"),
          .removeReplica (sampleReplica 3 "3.stor"),
          .deleteTombstone "x" (.wholeSecond 4) "s2"] := by
  have h : Stream.InOrder Row.key sampleRows := by decide
  obtain ⟨actions, hr, hs⟩ := removals_stem_from_tombstones samplePolicy h
  cases hr
  exact ⟨h, hs⟩

end Sample

/-- The replica that an action removes. -/
def Action.replica? : Action → Option Replica
  | deleteTombstone _ _ _ => none
  | removeReplica r => some r

/-- The replicas of an object that actions remove, in their order. -/
def removals (objectId : String) (actions : List Action) : List Replica :=
  (actions.filter fun a => a.objectId = objectId).filterMap Action.replica?

section Surviving

variable {policy : GracePolicy} {objectId : String}
variable {before after rows : List Row} {s t p : Row}

theorem mem_filterMap_replica?
    {actions : List Action} {replica : Replica} :
    replica ∈ actions.filterMap Action.replica? ↔
      .removeReplica replica ∈ actions := by
  rw [List.mem_filterMap]
  constructor
  · rintro ⟨a, ha, har⟩
    cases a with
    | deleteTombstone _ _ _ => cases har
    | removeReplica r =>
        cases har
        exact ha
  · intro h
    exact ⟨_, h, rfl⟩

theorem filterMap_replica?_map (replicas : List Replica) :
    (replicas.map Action.removeReplica).filterMap Action.replica? =
      replicas := by
  rw [List.filterMap_map]
  exact List.filterMap_some

theorem filterMap_replica?_surplus (xs : List Surplus) :
    (xs.flatMap fun x => (x.close policy objectId).1).filterMap
      Action.replica? = [] := by
  apply List.eq_nil_iff_forall_not_mem.2
  intro replica hr
  exact removeReplica_not_mem_surplus xs (mem_filterMap_replica?.1 hr)

/-- The replicas that the tombstone in force lists are removed in its order. -/
theorem removals_of_inForce
    {replicas : List Replica} {u : Row} {t : Tombstone}
    (hu : InForce rows u) (hut : u.tombstone? = some t)
    (he : policy.isExpired t.date)
    (hp : Replica.ofPayload objectId t.date t.payload = .ok replicas) :
    (actionsOf policy objectId rows).filterMap Action.replica? =
      replicas := by
  rw [actionsOf_eq, pending_eq_some_iff.2 ⟨u, hu, hut⟩, Option.toList_some,
    List.flatMap_singleton, close_eq_of_listed he hp, List.filterMap_append,
    filterMap_replica?_surplus, List.append_nil]
  exact filterMap_replica?_map replicas

/-- A surviving tombstone is in force if none was in force when it came. -/
theorem inForce_of_surviving
    (hs : ¬ s.IsLive) (hsurvives : ¬ Superseded (before ++ s :: after) s.date)
    (hnone : ∀ u, ¬ InForce before u) :
    InForce (before ++ s :: after) s := by
  rw [InForce]
  refine ⟨before, after, rfl, hs, hnone, ?_⟩
  intro row hrow hlive hlt
  exact hsurvives ⟨row, by simp [hrow], hlive, hlt⟩

/-- If an older tombstone was in force, only a later one than the first surviving can decide. -/
theorem InForce.lt_of_passed_over
    (ho : Ordered (before ++ s :: after)) (hs : ¬ s.IsLive)
    (hfirst : ∀ row ∈ before, ¬ row.IsLive →
      Superseded (before ++ s :: after) row.date)
    (hp : InForce before p) (ht : InForce (before ++ s :: after) t) :
    s.date < t.date := by
  rcases hp.eq_or_lt ho hs ht with rfl | hlt
  · exact absurd (hfirst t hp.mem hp.not_isLive) (ht.not_superseded ho)
  · exact hlt

/-- A surviving tombstone that came while another one was in force is surplus. -/
theorem lingers_of_surviving
    {x : Surplus} (hx : s.surplus? = some x)
    (hsurvives : ¬ Superseded (before ++ s :: after) s.date)
    (hp : InForce before p) (hpx : p.surplus? ≠ some x) :
    Lingers (before ++ s :: after) x := by
  have hdate := (Row.surplus?_eq_some_iff.1 hx).1
  refine ⟨before, s, after, rfl, hx, ⟨p, hp, hpx⟩, ?_⟩
  intro between row rest hafter hlive hlt
  exact absurd ⟨row, by simp [hafter], hlive, hdate ▸ hlt⟩ hsurvives

/-- The first surviving tombstone is surplus if an older one was in force. -/
theorem lingers_of_passed_over
    {x : Surplus} (hx : s.surplus? = some x)
    (hsurvives : ¬ Superseded (before ++ s :: after) s.date)
    (hfirst : ∀ row ∈ before, ¬ row.IsLive →
      Superseded (before ++ s :: after) row.date)
    (hp : InForce before p) :
    Lingers (before ++ s :: after) x := by
  refine lingers_of_surviving hx hsurvives hp ?_
  intro hpx
  have hdate := (Row.surplus?_eq_some_iff.1 hx).1
  have hps := (Row.surplus?_eq_some_iff.1 hpx).1.trans hdate.symm
  exact hsurvives (hps ▸ hfirst p hp.mem hp.not_isLive)

end Surviving

/--
What becomes of the replicas of the first surviving tombstone of an object, if
it is past the grace period and its metadata lists them.  If no tombstone was in
force when it came, each of its replicas is removed, in the order in which they
are listed, and no other replica of the object.  If one was in force, the
surviving tombstone is deleted and its replicas stay: only a later tombstone can
then be the source of removals.
-/
theorem removals_of_first_surviving
    (policy : GracePolicy) {rows before after : List Row}
    {objectId owner : String} {t : Tombstone} {value : Json.Value}
    {metadata : Metadata}
    (h : Stream.InOrder Row.key rows)
    (hsplit : history objectId rows = before ++ t.row objectId :: after)
    (hsurvives : ¬ Superseded (history objectId rows) t.date)
    (hfirst : ∀ row ∈ before, ¬ row.IsLive →
      Superseded (history objectId rows) row.date)
    (he : policy.isExpired t.date)
    (hvalue : t.payload.get? "_value" = some value)
    (hmetadata : Metadata.ofValue value = .ok metadata)
    (howner : metadata.owner = some owner) :
    ∃ actions, ((collector policy).run .start rows).2 = .ok actions ∧
      ((∀ u, ¬ InForce before u) →
        removals objectId actions =
          metadata.locations.map
            (Replica.ofLocation objectId t.date owner)) ∧
      ((∃ u, InForce before u) →
        .deleteTombstone objectId t.date t.shard ∈ actions ∧
          ∀ replica ∈ removals objectId actions, t.date < replica.date) := by
  refine ⟨_, run_eq_histories policy h, ?_⟩
  have hrun := filter_run_eq_actionsOf h (run_eq_histories policy h) objectId
  have ho : Ordered (history objectId rows) := ordered_history h
  rw [hsplit] at ho hsurvives hfirst
  have hlive : ¬ (t.row objectId).IsLive :=
    Row.not_isLive_of_tombstone? (t.tombstone?_row objectId)
  unfold removals
  rw [hrun, hsplit]
  constructor
  · intro hnone
    have hu := inForce_of_surviving hlive hsurvives hnone
    exact removals_of_inForce hu (t.tombstone?_row objectId) he
      (ofPayload_eq_ok_iff.2
        ⟨value, metadata, owner, hvalue, hmetadata, howner, rfl⟩)
  · rintro ⟨p, hp⟩
    have hx := Row.surplus?_of_tombstone? (t.tombstone?_row objectId)
    have hl := lingers_of_passed_over hx hsurvives hfirst hp
    constructor
    · have hm : .deleteTombstone objectId t.date t.shard ∈
          actionsOf policy objectId (before ++ t.row objectId :: after) :=
        deleteTombstone_mem_iff.2 ⟨he, .inr hl⟩
      rw [← hsplit] at hm
      exact (mem_run_iff_mem_actionsOf h (run_eq_histories policy h)).2 hm
    · intro replica hr
      obtain ⟨u, hu, hdate⟩ :=
        exists_inForce_of_removeReplica (mem_filterMap_replica?.1 hr)
      rw [← hdate]
      exact hp.lt_of_passed_over ho hlive hfirst hu

section Sample

/-- In the sample, the second tombstone is the first to survive, and its replicas go. -/
theorem removals_of_sample :
    Stream.InOrder Row.key sampleRows ∧
      ∃ actions, ((collector samplePolicy).run .start sampleRows).2 =
          .ok actions ∧
        removals "x" actions =
          [sampleReplica 3 "2.stor", sampleReplica 3 "3.stor"] := by
  have h : Stream.InOrder Row.key sampleRows := by decide
  have hsplit : history "x" sampleRows = sampleRows.take 2 ++
      (sampleTombstone 3 "s1" ["2.stor", "3.stor"]).row "x" ::
        sampleRows.drop 3 := rfl
  obtain ⟨actions, hr, hremoved, _⟩ :=
    removals_of_first_surviving samplePolicy h hsplit (by decide) (by decide)
      (by decide) rfl rfl rfl
  exact ⟨h, actions, hr, hremoved (not_exists.1 (by decide))⟩

/-- A live row of the date of the second tombstone takes the first one out of force. -/
def tiedRows : List Row :=
  [(sampleTombstone 1 "s1" ["1.stor"]).row "x",
    (sampleTombstone 2 "s2" ["2.stor"]).row "x",
    ⟨"x", .wholeSecond 2, .live⟩]

/-- Without the case of a tombstone in force, replicas would have to go that stay. -/
theorem not_removals_of_first_surviving :
    ¬ ∀ (policy : GracePolicy) (rows before after : List Row)
        (objectId owner : String) (t : Tombstone) (value : Json.Value)
        (metadata : Metadata),
      Stream.InOrder Row.key rows →
        history objectId rows = before ++ t.row objectId :: after →
        ¬ Superseded (history objectId rows) t.date →
        (∀ row ∈ before, ¬ row.IsLive →
          Superseded (history objectId rows) row.date) →
        policy.isExpired t.date →
        t.payload.get? "_value" = some value →
        Metadata.ofValue value = .ok metadata →
        metadata.owner = some owner →
        ∃ actions, ((collector policy).run .start rows).2 = .ok actions ∧
          removals objectId actions =
            metadata.locations.map
              (Replica.ofLocation objectId t.date owner) := by
  intro h
  obtain ⟨actions, hr, hremoved⟩ :=
    h samplePolicy tiedRows (tiedRows.take 1) (tiedRows.drop 2) "x" "a"
      (sampleTombstone 2 "s2" ["2.stor"]) _ _ (by decide) rfl (by decide)
      (by decide) (by decide) rfl rfl rfl
  cases hr
  cases hremoved

end Sample

end Object
end Reclaim
