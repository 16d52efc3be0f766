import Mathlib.Tactic.ByContra
import Reclaim.Proofs.Object.Removals

/-!
# Deleting the tombstones of objects

Tombstones of an object with the same date and shard are repetitions of each
other.  In an ordered history no live row stands between them, so they fare
alike: they are repetitions of the one in force, and then only that one counts,
or each of them is surplus.

A tombstone past the grace period that no live row supersedes is thus deleted,
but as many times as it is repeated if it is surplus.  If it repeats the one in
force, it depends on the payload of that one whether there is a deletion.

Main results: `count_deletions` and `surviving_deleted_iff`.
-/

namespace Reclaim
namespace Object

/-! ## Repeated tombstones -/

/-- The number of tombstones of a date and shard among rows. -/
def repetitions (rows : List Row) (x : Surplus) : Nat :=
  rows.countP fun r => r.surplus? = some x

section Repetitions

variable {rows : List Row} {p r s u : Row} {x y : Surplus}

theorem repetitions_concat_of_live (h : r.IsLive) :
    repetitions (rows ++ [r]) x = repetitions rows x := by
  simp [repetitions, Row.surplus?_eq_none_iff.2 h]

theorem repetitions_concat_of_dead (h : r.surplus? = some y) :
    repetitions (rows ++ [r]) x = repetitions rows x + [y].count x := by
  simp [repetitions, h, List.countP_singleton, List.count_singleton]

theorem repetitions_eq_zero_iff :
    repetitions rows x = 0 ↔ ∀ s ∈ rows, s.surplus? ≠ some x := by
  simp [repetitions, List.countP_eq_zero]

/-- Until the next of its kind comes, surplus lingers beside another tombstone in force. -/
theorem Lingers.exists_inForce_other
    (hl : Lingers rows x) (ho : Ordered (rows ++ [r]))
    (hr : r.surplus? = some x) :
    ∃ p, InForce rows p ∧ p.surplus? ≠ some x := by
  obtain ⟨before, s, after, rfl, hs, ⟨p, hp, hpx⟩, -⟩ := hl
  have hle : r.date ≤ s.date :=
    le_of_eq ((Row.surplus?_eq_some_iff.1 hr).1.trans
      (Row.surplus?_eq_some_iff.1 hs).1.symm)
  rw [List.append_assoc, List.cons_append] at ho
  exact ⟨p, hp.append_of_tied ho (Row.not_isLive_of_surplus? hs)
    (Row.not_isLive_of_surplus? hr) hle, hpx⟩

/-- If another tombstone is in force when a repetition comes, the repeated one is surplus. -/
theorem lingers_of_repeated
    (ho : Ordered (rows ++ [r])) (hr : r.surplus? = some x) (hm : s ∈ rows)
    (hs : s.surplus? = some x) (hp : InForce rows p)
    (hpx : p.surplus? ≠ some x) :
    Lingers rows x := by
  obtain ⟨before, after, rfl⟩ := List.append_of_mem hm
  have hsdead := Row.not_isLive_of_surplus? hs
  have hrdead := Row.not_isLive_of_surplus? hr
  have hle : r.date ≤ s.date :=
    le_of_eq ((Row.surplus?_eq_some_iff.1 hr).1.trans
      (Row.surplus?_eq_some_iff.1 hs).1.symm)
  rw [List.append_assoc, List.cons_append] at ho
  have hdead := ho.not_isLive_between hrdead hle
  refine ⟨before, s, after, rfl, hs, ?_, ?_⟩
  · by_cases hex : ∃ q, InForce before q
    · obtain ⟨q, hq⟩ := hex
      have hsame := (hq.append_of_tied ho hsdead hrdead hle).unique hp
      exact ⟨q, hq, hsame ▸ hpx⟩
    · -- Otherwise `s` would have come into force and would be so still.
      have hstart : InForce (before ++ [s]) s :=
        inForce_concat.2 (.inl ⟨hsdead, rfl, not_exists.1 hex⟩)
      have hstill : InForce (before ++ [s] ++ after) s :=
        hstart.append fun row hrow hlive => absurd hlive (hdead row hrow)
      rw [List.append_assoc, List.singleton_append] at hstill
      exact absurd (hstill.unique hp ▸ hs) hpx
  · rintro between row rest rfl hlive
    exact absurd hlive (hdead row (by simp))

/-- No repetition of the tombstone in force is surplus. -/
theorem InForce.not_lingers
    (ho : Ordered rows) (hu : InForce rows u) (hx : u.surplus? = some x) :
    ¬ Lingers rows x := by
  rintro ⟨before, s, after, rfl, hs, ⟨p, hp, hpx⟩, -⟩
  rcases hp.eq_or_lt ho (Row.not_isLive_of_surplus? hs) hu with rfl | hlt
  · exact hpx hx
  · rw [(Row.surplus?_eq_some_iff.1 hs).1,
      (Row.surplus?_eq_some_iff.1 hx).1] at hlt
    exact lt_irrefl _ hlt

/-- A tombstone that survives is surplus, or it or a repetition of it is in force. -/
theorem inForce_or_lingers_of_surviving
    (hm : s ∈ rows) (hs : s.surplus? = some x)
    (hsurvives : ¬ Superseded rows x.date) :
    (∃ u, InForce rows u ∧ u.surplus? = some x) ∨ Lingers rows x := by
  obtain ⟨before, after, rfl⟩ := List.append_of_mem hm
  have hdate := (Row.surplus?_eq_some_iff.1 hs).1
  by_cases hex : ∃ p, InForce before p
  · obtain ⟨p, hp⟩ := hex
    by_cases hpx : p.surplus? = some x
    · refine .inl ⟨p, hp.append ?_, hpx⟩
      intro row hrow hlive hlt
      rw [(Row.surplus?_eq_some_iff.1 hpx).1] at hlt
      exact hsurvives ⟨row, List.mem_append_right _ hrow, hlive, hlt⟩
    · exact .inr (lingers_of_surviving hs (hdate ▸ hsurvives) hp hpx)
  · exact .inl ⟨s, inForce_of_surviving (Row.not_isLive_of_surplus? hs)
      (hdate ▸ hsurvives) (not_exists.1 hex), hs⟩

end Repetitions

/-! ## How often a tombstone is deleted -/

section Count

variable {policy : GracePolicy} {objectId shard : String}
variable {date : Time.Instant} {rows : List Row} {d : Death} {r : Row}
variable {x : Surplus}

/-- A live row drops all repetitions of surplus or none. -/
theorem count_surplus_add_of_live
    (h : r.IsLive) (hx : x ∈ (d.add r).1.surplus) :
    (d.add r).1.surplus.count x = d.surplus.count x := by
  have hs : r.state = .live := h
  simp only [Death.add, hs, Death.addLive] at hx ⊢
  cases hp : d.pending with
  | none => rfl
  | some t =>
      rw [hp] at hx
      by_cases hlt : compare t.date r.date = .lt
      · simp only [hlt, if_true] at hx ⊢
        exact List.count_filter (List.mem_filter.1 hx).2
      · simp only [hlt, if_false]

/-- What lingers of a history is surplus as many times as it is repeated. -/
theorem count_surplus
    (ho : Ordered rows) (hx : x ∈ (Death.ofRows rows).surplus) :
    (Death.ofRows rows).surplus.count x = repetitions rows x := by
  induction rows using List.reverseRecOn with
  | nil => cases hx
  | append_singleton rows r ih =>
      have ih := ih ho.append_left
      rw [ofRows_concat] at hx ⊢
      by_cases hr : r.IsLive
      · have hbefore := ((mem_surplus_add_of_live hr).1 hx).1
        rw [count_surplus_add_of_live hr hx, ih hbefore,
          repetitions_concat_of_live hr]
      · obtain ⟨u, hu⟩ := Row.exists_tombstone? hr
        have hsurplus := Row.surplus?_of_tombstone? hu
        rw [repetitions_concat_of_dead hsurplus]
        by_cases hother :
            ∃ t, (Death.ofRows rows).pending = some t ∧ t.surplus ≠ u.surplus
        · -- The row becomes surplus, and with it each repetition before it was.
          obtain ⟨t, hp, hne⟩ := hother
          obtain ⟨p, hforce, hpx⟩ :=
            exists_pending_surplus_ne_iff.1 ⟨t, hp, hne⟩
          rw [surplus_add_of_other hu hp hne] at hx ⊢
          rw [List.count_append]
          congr 1
          by_cases hbefore : x ∈ (Death.ofRows rows).surplus
          · exact ih hbefore
          · obtain rfl : x = u.surplus := by
              simpa [hbefore] using hx
            rw [List.count_eq_zero_of_not_mem hbefore, eq_comm,
              repetitions_eq_zero_iff]
            intro s hm hs
            exact hbefore (mem_surplus_iff.2
              (lingers_of_repeated ho hsurplus hm hs hforce hpx))
        · -- The row is dropped, so nothing of its kind lingers.
          rw [surplus_add_of_no_other hu hother] at hx ⊢
          have hne : u.surplus ≠ x := by
            rintro rfl
            exact hother (exists_pending_surplus_ne_iff.2
              ((mem_surplus_iff.1 hx).exists_inForce_other ho hsurplus))
          rw [ih hx, List.count_singleton, if_neg (by simpa using hne),
            Nat.add_zero]

/-- The deciding tombstone is deleted once. -/
theorem count_close
    {t : Tombstone}
    (h : .deleteTombstone objectId date shard ∈ (t.close policy objectId).1) :
    (t.close policy objectId).1.count (.deleteTombstone objectId date shard) =
      1 := by
  obtain ⟨replicas, he, hp, ha | ⟨_, _, ha⟩⟩ := mem_close_iff.1 h
  · have hnone : .deleteTombstone objectId t.date t.shard ∉
        replicas.map Action.removeReplica := by
      simp
    rw [ha, close_eq_of_listed he hp, List.count_cons_self,
      List.count_eq_zero_of_not_mem hnone]
  · cases ha

/-- Each surplus tombstone past the grace period is deleted. -/
theorem count_close_surplus (he : policy.isExpired date) (xs : List Surplus) :
    (xs.flatMap fun x => (x.close policy objectId).1).count
        (.deleteTombstone objectId date shard) =
      xs.count ⟨date, shard⟩ := by
  induction xs with
  | nil => rfl
  | cons x xs ih =>
      rw [List.flatMap_cons, List.count_append, ih, List.count_cons,
        Nat.add_comm]
      congr 1
      obtain ⟨date', shard'⟩ := x
      by_cases hx : (⟨date', shard'⟩ : Surplus) = ⟨date, shard⟩
      · obtain ⟨rfl, rfl⟩ := Surplus.mk.inj hx
        simp [Surplus.close, he]
      · have hnone : .deleteTombstone objectId date shard ∉
            ((⟨date', shard'⟩ : Surplus).close policy objectId).1 := by
          intro hm
          cases (mem_surplus_close_iff.1 hm).2
          exact hx rfl
        rw [List.count_eq_zero_of_not_mem hnone]
        simp [hx]

/-- A tombstone that is deleted is so once, or as many times as it is repeated. -/
theorem count_actionsOf
    (ho : Ordered rows)
    (h : .deleteTombstone objectId date shard ∈
      actionsOf policy objectId rows) :
    (Lingers rows ⟨date, shard⟩ →
      (actionsOf policy objectId rows).count
          (.deleteTombstone objectId date shard) =
        repetitions rows ⟨date, shard⟩) ∧
      (¬ Lingers rows ⟨date, shard⟩ →
        (actionsOf policy objectId rows).count
          (.deleteTombstone objectId date shard) = 1) := by
  obtain ⟨he, -⟩ := deleteTombstone_mem_iff.1 h
  rw [actionsOf_eq] at h ⊢
  rw [List.count_append, count_close_surplus he]
  constructor
  · intro hl
    have hnone : .deleteTombstone objectId date shard ∉
        (Death.ofRows rows).pending.toList.flatMap
          fun t => (t.close policy objectId).1 := by
      intro hm
      obtain ⟨-, u, payload, _, hu, hut, -⟩ :=
        deleteTombstone_mem_pending_iff.1 hm
      exact hu.not_lingers ho (Row.surplus?_of_tombstone? hut) hl
    rw [List.count_eq_zero_of_not_mem hnone, Nat.zero_add,
      count_surplus ho (mem_surplus_iff.2 hl)]
  · intro hl
    have hnone : ⟨date, shard⟩ ∉ (Death.ofRows rows).surplus :=
      fun hm => hl (mem_surplus_iff.1 hm)
    rw [List.count_eq_zero_of_not_mem hnone, Nat.add_zero]
    rcases List.mem_append.1 h with h | h
    · cases hp : (Death.ofRows rows).pending with
      | none =>
          rw [hp] at h
          cases h
      | some t =>
          rw [hp, Option.toList_some, List.flatMap_singleton] at h
          rw [Option.toList_some, List.flatMap_singleton]
          exact count_close h
    · exact absurd (deleteTombstone_mem_surplus_iff.1 h).2 hl

end Count

/--
How often a tombstone of an object is deleted, if it is: as many times as it is
repeated among the rows of the object if it lingers as surplus, and once if not.
-/
theorem count_deletions
    (policy : GracePolicy) {rows : List Row}
    (h : Stream.InOrder Row.key rows) :
    ∃ actions, ((collector policy).run .start rows).2 = .ok actions ∧
      ∀ objectId date shard,
        .deleteTombstone objectId date shard ∈ actions →
          (Lingers (history objectId rows) ⟨date, shard⟩ →
            actions.count (.deleteTombstone objectId date shard) =
              repetitions (history objectId rows) ⟨date, shard⟩) ∧
          (¬ Lingers (history objectId rows) ⟨date, shard⟩ →
            actions.count (.deleteTombstone objectId date shard) = 1) := by
  have hr := run_eq_histories policy h
  refine ⟨_, hr, ?_⟩
  intro objectId date shard hm
  rw [count_run_eq_count_actionsOf h hr]
  exact count_actionsOf (ordered_history h)
    ((mem_run_iff_mem_actionsOf h hr).1 hm)

section Sample

/-- An object with a second tombstone that is there twice. -/
def repeatedRows : List Row :=
  [(sampleTombstone 1 "s1" ["1.stor"]).row "x",
    (sampleTombstone 2 "s2" ["1.stor"]).row "x",
    (sampleTombstone 2 "s2" ["1.stor"]).row "x"]

/-- The second tombstone of the sample is surplus and deleted twice. -/
theorem count_deletions_of_repeated :
    Stream.InOrder Row.key repeatedRows ∧
      Lingers (history "x" repeatedRows) ⟨.wholeSecond 2, "s2"⟩ ∧
      ∃ actions, ((collector samplePolicy).run .start repeatedRows).2 =
          .ok actions ∧
        actions.count (.deleteTombstone "x" (.wholeSecond 2) "s2") = 2 := by
  have h : Stream.InOrder Row.key repeatedRows := by decide
  have hl : Lingers (history "x" repeatedRows) ⟨.wholeSecond 2, "s2"⟩ :=
    mem_surplus_iff.1 (by decide)
  obtain ⟨actions, hr, hcount⟩ := count_deletions samplePolicy h
  refine ⟨h, hl, actions, hr, ?_⟩
  cases hr
  exact (hcount "x" (.wholeSecond 2) "s2" (by decide)).1 hl

/-- Not every tombstone is deleted at most once. -/
theorem not_forall_count_deletions_le_one :
    ¬ ∀ (policy : GracePolicy) (rows : List Row),
      Stream.InOrder Row.key rows →
        ∃ actions, ((collector policy).run .start rows).2 = .ok actions ∧
          ∀ objectId date shard,
            actions.count (.deleteTombstone objectId date shard) ≤ 1 := by
  intro h
  obtain ⟨actions, hr, hle⟩ := h samplePolicy repeatedRows (by decide)
  cases hr
  exact absurd (hle "x" (.wholeSecond 2) "s2") (by decide)

end Sample

/-! ## Which tombstones are deleted -/

/--
The tombstone in force has the date and the shard and is kept, because its
payload does not list the replicas.
-/
def Kept (objectId : String) (rows : List Row) (x : Surplus) : Prop :=
  ∃ u t, InForce rows u ∧ u.tombstone? = some t ∧ t.surplus = x ∧
    ∀ replicas, Replica.ofPayload objectId t.date t.payload ≠ .ok replicas

/-- A surviving tombstone past the grace period is deleted unless it repeats one that is kept. -/
theorem deleteTombstone_mem_iff_of_surviving
    {policy : GracePolicy} {objectId : String} {rows : List Row} {s : Row}
    {x : Surplus} (ho : Ordered rows) (hm : s ∈ rows)
    (hs : s.surplus? = some x) (he : policy.isExpired x.date)
    (hsurvives : ¬ Superseded rows x.date) :
    .deleteTombstone objectId x.date x.shard ∈
        actionsOf policy objectId rows ↔ ¬ Kept objectId rows x := by
  rw [deleteTombstone_mem_iff]
  constructor
  · rintro ⟨-, hdeleted⟩ ⟨p, t, hp, hpt, rfl, hbad⟩
    rcases hdeleted with ⟨u, payload, replicas, hu, hut, hlisted⟩ | hl
    · rw [hu.unique hp, hpt] at hut
      obtain rfl : t.payload = payload :=
        congrArg Tombstone.payload (Option.some.inj hut)
      exact hbad replicas hlisted
    · exact hp.not_lingers ho (Row.surplus?_of_tombstone? hpt) hl
  · intro hnot
    refine ⟨he, ?_⟩
    rcases inForce_or_lingers_of_surviving hm hs hsurvives with
      ⟨u, hu, hux⟩ | hl
    · obtain ⟨t, hut, rfl⟩ := Option.map_eq_some_iff.1 hux
      refine .inl ?_
      by_contra hunlisted
      refine hnot ⟨u, t, hu, hut, rfl, ?_⟩
      intro replicas hlisted
      exact hunlisted ⟨u, t.payload, replicas, hu, hut, hlisted⟩
    · exact .inr hl

/--
A tombstone past the grace period that no later live row of its object
supersedes is deleted, except if the tombstone in force has its date and shard
and a payload that does not list replicas.
-/
theorem surviving_deleted_iff
    (policy : GracePolicy) {rows : List Row}
    (h : Stream.InOrder Row.key rows) :
    ∃ actions, ((collector policy).run .start rows).2 = .ok actions ∧
      ∀ (objectId : String) (t : Tombstone), t.row objectId ∈ rows →
        policy.isExpired t.date →
        ¬ Superseded (history objectId rows) t.date →
        (.deleteTombstone objectId t.date t.shard ∈ actions ↔
          ¬ Kept objectId (history objectId rows) t.surplus) := by
  have hr := run_eq_histories policy h
  refine ⟨_, hr, ?_⟩
  intro objectId t hm he hsurvives
  rw [mem_run_iff_mem_actionsOf h hr]
  exact deleteTombstone_mem_iff_of_surviving (ordered_history h)
    (Stream.mem_rowsOf.2 ⟨hm, rfl⟩)
    (Row.surplus?_of_tombstone? (t.tombstone?_row objectId)) he hsurvives

section Sample

/-- A tombstone that does not list replicas. -/
def unlistedTombstone (second : Int) (shard : String) : Tombstone where
  date := .wholeSecond second
  payload := .object [("_key", .string "/x/1")]
  shard := shard

/-- An object whose first tombstone is kept, with a repetition of it and a later one. -/
def keptRows : List Row :=
  [(unlistedTombstone 1 "s1").row "x",
    (sampleTombstone 1 "s1" ["1.stor"]).row "x",
    (sampleTombstone 2 "s2" ["1.stor"]).row "x"]

/-- Of the sample the later tombstone is deleted, and the repetition is not. -/
theorem surviving_deleted_of_kept :
    Stream.InOrder Row.key keptRows ∧
      ((collector samplePolicy).run .start keptRows).2 =
        .ok [.deleteTombstone "x" (.wholeSecond 2) "s2"] ∧
      Kept "x" (history "x" keptRows) ⟨.wholeSecond 1, "s1"⟩ ∧
      ¬ Kept "x" (history "x" keptRows) ⟨.wholeSecond 2, "s2"⟩ := by
  have h : Stream.InOrder Row.key keptRows := by decide
  obtain ⟨actions, hr, hiff⟩ := surviving_deleted_iff samplePolicy h
  cases hr
  have repetition := hiff "x" (sampleTombstone 1 "s1" ["1.stor"])
    (by simp [keptRows]) (by decide) (by decide)
  have later := hiff "x" (sampleTombstone 2 "s2" ["1.stor"])
    (by simp [keptRows]) (by decide) (by decide)
  exact ⟨h, rfl, not_not.1 fun hk => absurd (repetition.2 hk) (by decide),
    later.1 (by decide)⟩

/-- Not every surviving tombstone past the grace period that lists its replicas is deleted. -/
theorem not_forall_surviving_deleted :
    ¬ ∀ (policy : GracePolicy) (rows : List Row),
      Stream.InOrder Row.key rows →
        ∃ actions, ((collector policy).run .start rows).2 = .ok actions ∧
          ∀ (objectId : String) (t : Tombstone) (replicas : List Replica),
            t.row objectId ∈ rows → policy.isExpired t.date →
            Replica.ofPayload objectId t.date t.payload = .ok replicas →
            ¬ Superseded (history objectId rows) t.date →
            .deleteTombstone objectId t.date t.shard ∈ actions := by
  intro h
  obtain ⟨actions, hr, hdeleted⟩ := h samplePolicy keptRows (by decide)
  cases hr
  have hm := hdeleted "x" (sampleTombstone 1 "s1" ["1.stor"])
    [sampleReplica 1 "1.stor"] (by simp [keptRows]) (by decide) rfl (by decide)
  exact absurd hm (by decide)

end Sample

end Object
end Reclaim
