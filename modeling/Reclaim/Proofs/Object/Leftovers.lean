import Reclaim.Proofs.Object.Removals

/-!
# Superseded tombstones that are left behind

A live row later than the tombstone in force takes it out of force and drops the
surplus before its own date with it.  Surplus of that very date stays, and no
tombstone is in force any more that could take it along later.  Unless a later
tombstone comes into force and is superseded in its turn, such surplus is left
behind, and its tombstone is deleted although the object came back after it.

Main results: `lingers_iff_leftBehind` and `mem_actions_of_superseded`.
-/

namespace Reclaim
namespace Object

/--
A tombstone is left behind: an earlier one was in force when it came, a live row
of its own date comes after it, and no later tombstone is superseded.
-/
def LeftBehind (rows : List Row) (x : Surplus) : Prop :=
  ∃ before s after, rows = before ++ s :: after ∧
    s.surplus? = some x ∧
    (∃ p, InForce before p ∧ p.date < x.date) ∧
    (∃ row ∈ after, row.IsLive ∧ row.date = x.date) ∧
    ∀ row ∈ after, ¬ row.IsLive → x.date < row.date →
      ¬ Superseded rows row.date

section Leftovers

variable {before after between more rest rows : List Row}
variable {r s t p u : Row} {x : Surplus}

/-- The first live row later than a tombstone in force comes while it is in force. -/
theorem InForce.exists_overtaken
    (h : InForce rows t) (hm : Superseded more t.date) :
    ∃ between row rest, more = between ++ row :: rest ∧ row.IsLive ∧
      t.date < row.date ∧ InForce (rows ++ between) t := by
  induction more generalizing rows with
  | nil =>
      obtain ⟨_, hrow, _⟩ := hm
      cases hrow
  | cons r more ih =>
      by_cases hr : r.IsLive ∧ t.date < r.date
      · exact ⟨[], r, more, rfl, hr.1, hr.2, by simpa using h⟩
      · have hnext : InForce (rows ++ [r]) t :=
          inForce_concat.2 (.inr ⟨h, fun hl hlt => hr ⟨hl, hlt⟩⟩)
        obtain ⟨row, hrow, hlive, hlt⟩ := hm
        rcases List.mem_cons.1 hrow with rfl | hrow
        · exact absurd ⟨hlive, hlt⟩ hr
        · obtain ⟨between, row, rest, rfl, hlive, hlt, hin⟩ :=
            ih hnext ⟨row, hrow, hlive, hlt⟩
          exact ⟨r :: between, row, rest, rfl, hlive, hlt,
            by simpa using hin⟩

/-- Right after a tombstone, some tombstone is in force. -/
theorem exists_inForce_concat (rows : List Row) (hr : ¬ r.IsLive) :
    ∃ u, InForce (rows ++ [r]) u := by
  by_cases h : ∃ u, InForce rows u
  · obtain ⟨u, hu⟩ := h
    exact ⟨u, inForce_concat.2 (.inr ⟨hu, fun hl => absurd hl hr⟩)⟩
  · exact ⟨r, inForce_concat.2 (.inl ⟨hr, rfl, not_exists.1 h⟩)⟩

theorem Ordered.superseded_after
    (ho : Ordered (before ++ s :: after))
    (h : Superseded (before ++ s :: after) s.date) :
    Superseded after s.date := by
  obtain ⟨row, hrow, hlive, hlt⟩ := h
  exact ⟨row, ho.mem_after_of_lt hrow hlt, hlive, hlt⟩

theorem Superseded.of_le
    {date earlier : Time.Instant}
    (h : Superseded rows date) (hle : earlier ≤ date) :
    Superseded rows earlier := by
  obtain ⟨row, hrow, hlive, hlt⟩ := h
  exact ⟨row, hrow, hlive, lt_of_le_of_lt hle hlt⟩

/-- The tombstone in force when surplus came is overtaken on the date of the surplus. -/
theorem exists_tied_of_lingers
    (ho : Ordered (before ++ s :: after)) (hs : s.surplus? = some x)
    (hsup : Superseded (before ++ s :: after) x.date) (hp : InForce before p)
    (hdrop : ∀ between row rest, after = between ++ row :: rest →
      row.IsLive → x.date < row.date →
        ∀ u, InForce (before ++ s :: between) u → ¬ u.date < row.date) :
    ∃ row ∈ after, row.IsLive ∧ row.date = x.date ∧ p.date < x.date := by
  have hdate := (Row.surplus?_eq_some_iff.1 hs).1
  have hdead := Row.not_isLive_of_surplus? hs
  rw [← hdate] at hsup
  have hps := (ho.precedes_of_before hp.mem).1
  obtain ⟨row, hrow, hrowLive, hlt⟩ := (ho.superseded_after hsup).of_le hps
  have hover : Superseded (s :: after) p.date :=
    ⟨row, List.mem_cons_of_mem s hrow, hrowLive, hlt⟩
  obtain ⟨between, row, rest, heq, hrowLive, hlt, hin⟩ :=
    hp.exists_overtaken hover
  cases between with
  | nil =>
      cases heq
      exact absurd hrowLive hdead
  | cons s' between =>
      obtain ⟨rfl, rfl⟩ := List.cons.inj heq
      have hsr : s.date ≤ row.date :=
        (ho.precedes_of_after (List.mem_append_right _ List.mem_cons_self)).1
      have hle : ¬ x.date < row.date :=
        fun hxr => hdrop between row rest rfl hrowLive hxr p hin hlt
      have heq : row.date = x.date :=
        le_antisymm (not_lt.1 hle) (hdate ▸ hsr)
      exact ⟨row, by simp, hrowLive, heq, heq ▸ hlt⟩

/-- While surplus lingers, no later tombstone is superseded. -/
theorem not_superseded_of_lingers
    (ho : Ordered (before ++ s :: after))
    (hdrop : ∀ between row rest, after = between ++ row :: rest →
      row.IsLive → x.date < row.date →
        ∀ u, InForce (before ++ s :: between) u → ¬ u.date < row.date)
    (hr : r ∈ after) (hdead : ¬ r.IsLive) (hlt : x.date < r.date) :
    ¬ Superseded (before ++ s :: after) r.date := by
  intro hsup
  obtain ⟨first, last, rfl⟩ := List.append_of_mem hr
  rw [← List.cons_append, ← List.append_assoc] at ho hsup
  have hlast := ho.superseded_after hsup
  -- Some tombstone is in force after `r`, and the first live row later than it
  -- is later than `r` too.
  obtain ⟨u, hu⟩ := exists_inForce_concat (before ++ s :: first) hdead
  have hur : u.date ≤ r.date := by
    rcases List.mem_append.1 hu.mem with hm | hm
    · exact (ho.precedes_of_before hm).1
    · rw [List.mem_singleton.1 hm]
  obtain ⟨between, row, rest, rfl, hlive, hrow, hin⟩ :=
    hu.exists_overtaken (hlast.of_le hur)
  have hrr : r.date ≤ row.date :=
    (ho.precedes_of_after (List.mem_append_right _ List.mem_cons_self)).1
  refine hdrop (first ++ r :: between) row rest (by simp) hlive
    (lt_of_lt_of_le hlt hrr) u ?_ hrow
  simpa using hin

/-- Surplus that is left behind is not dropped by any later live row. -/
theorem LeftBehind.lingers
    (ho : Ordered rows) (h : LeftBehind rows x) : Lingers rows x := by
  obtain ⟨before, s, after, rfl, hs, ⟨p, hp, hpx⟩, hlive, hafter⟩ := h
  obtain ⟨live, hmem, hlive, htied⟩ := hlive
  have hdate := (Row.surplus?_eq_some_iff.1 hs).1
  have hdead := Row.not_isLive_of_surplus? hs
  refine ⟨before, s, after, rfl, hs, ⟨p, hp, ?_⟩, ?_⟩
  · intro hpeq
    rw [(Row.surplus?_eq_some_iff.1 hpeq).1] at hpx
    exact lt_irrefl _ hpx
  · rintro between row rest rfl hrow hlt u hu hur
    rw [← List.cons_append, ← List.append_assoc] at ho
    rcases hp.eq_or_lt ho.append_left hdead hu with rfl | hsu
    · -- The live row of the date of the surplus comes before `row` and has
      -- taken `u` out of force by then.
      have hlive_mem : live ∈ before ++ s :: between := by
        refine ho.mem_before_of_lt ?_ (htied ▸ hlt)
        rw [List.append_assoc, List.cons_append]
        exact List.mem_append_right _ (List.mem_cons_of_mem s hmem)
      exact hu.not_superseded ho.append_left
        ⟨live, hlive_mem, hlive, htied ▸ hpx⟩
    · have hu_after := ho.append_left.mem_after_of_lt hu.mem hsu
      exact hafter u (List.mem_append_left _ hu_after) hu.not_isLive
        (hdate ▸ hsu) ⟨row, by simp, hrow, hur⟩

/-- A superseded tombstone lingers if it is left behind. -/
theorem lingers_iff_leftBehind
    (ho : Ordered rows) (hsup : Superseded rows x.date) :
    Lingers rows x ↔ LeftBehind rows x := by
  constructor
  · rintro ⟨before, s, after, rfl, hs, ⟨p, hp, _⟩, hdrop⟩
    obtain ⟨row, hrow, hlive, htied, hlt⟩ :=
      exists_tied_of_lingers ho hs hsup hp hdrop
    exact ⟨before, s, after, rfl, hs, ⟨p, hp, hlt⟩,
      ⟨row, hrow, hlive, htied⟩,
      fun r hr hdead hxr => not_superseded_of_lingers ho hdrop hr hdead hxr⟩
  · exact LeftBehind.lingers ho

end Leftovers

/-- The date of the tombstone that an action is on account of. -/
def Action.date : Action → Time.Instant
  | deleteTombstone _ date _ => date
  | removeReplica r => r.date

/--
An action on account of a superseded tombstone is the deletion of a tombstone
that is past the grace period and left behind, and each of these is deleted.
-/
theorem mem_actions_of_superseded
    (policy : GracePolicy) {rows : List Row}
    (h : Stream.InOrder Row.key rows) :
    ∃ actions, ((collector policy).run .start rows).2 = .ok actions ∧
      ∀ a : Action, Superseded (history a.objectId rows) a.date →
        (a ∈ actions ↔ policy.isExpired a.date ∧ ∃ shard,
          a = .deleteTombstone a.objectId a.date shard ∧
            LeftBehind (history a.objectId rows) ⟨a.date, shard⟩) := by
  have hr := run_eq_histories policy h
  refine ⟨_, hr, ?_⟩
  intro a hsup
  rw [mem_run_iff_mem_actionsOf h hr]
  have ho : ∀ objectId, Ordered (history objectId rows) :=
    fun _ => ordered_history h
  cases a with
  | deleteTombstone objectId date shard =>
      simp only [Action.objectId, Action.date] at hsup ⊢
      rw [deleteTombstone_mem_iff, lingers_iff_leftBehind (ho _) hsup]
      constructor
      · rintro ⟨he, ⟨u, payload, _, hu, hut, _⟩ | hl⟩
        · have hdate : u.date = date := (Row.tombstone?_eq_some_iff.1 hut).1
          rw [← hdate] at hsup
          exact absurd hsup (hu.not_superseded (ho _))
        · exact ⟨he, shard, rfl, hl⟩
      · rintro ⟨he, _, heq, hl⟩
        cases heq
        exact ⟨he, .inr hl⟩
  | removeReplica replica =>
      constructor
      · intro hm
        obtain ⟨u, hu, hdate⟩ := exists_inForce_of_removeReplica hm
        rw [Action.date, ← hdate] at hsup
        exact absurd hsup (hu.not_superseded (ho _))
      · rintro ⟨_, _, heq, _⟩
        cases heq

section Sample

/-- An object whose second tombstone is tied with a live row and then superseded. -/
def overtakenRows : List Row :=
  tiedRows ++ [⟨"x", .wholeSecond 3, .live⟩]

/-- The second tombstone of the sample is left behind and deleted. -/
theorem mem_actions_of_overtaken :
    Stream.InOrder Row.key overtakenRows ∧
      Superseded (history "x" overtakenRows) (.wholeSecond 2) ∧
      ((collector samplePolicy).run .start overtakenRows).2 =
        .ok [.deleteTombstone "x" (.wholeSecond 2) "s2"] ∧
      LeftBehind (history "x" overtakenRows) ⟨.wholeSecond 2, "s2"⟩ := by
  have h : Stream.InOrder Row.key overtakenRows := by decide
  have hsup : Superseded (history "x" overtakenRows) (.wholeSecond 2) := by
    decide
  obtain ⟨actions, hr, hiff⟩ := mem_actions_of_superseded samplePolicy h
  cases hr
  obtain ⟨_, shard, heq, hl⟩ :=
    (hiff (.deleteTombstone "x" (.wholeSecond 2) "s2") hsup).1
      List.mem_cons_self
  cases heq
  exact ⟨h, hsup, rfl, hl⟩

/-- Not every action is on account of a tombstone that no live row supersedes. -/
theorem not_forall_actions_not_superseded :
    ¬ ∀ (policy : GracePolicy) (rows : List Row),
      Stream.InOrder Row.key rows →
        ∃ actions, ((collector policy).run .start rows).2 = .ok actions ∧
          ∀ a ∈ actions, ¬ Superseded (history a.objectId rows) a.date := by
  intro h
  obtain ⟨actions, hr, hnone⟩ := h samplePolicy overtakenRows (by decide)
  cases hr
  exact hnone (.deleteTombstone "x" (.wholeSecond 2) "s2")
    List.mem_cons_self (by decide)

end Sample

end Object
end Reclaim
