import Reclaim.Proofs.Object.History

/-!
# What is kept of a history

The collector keeps the deciding tombstone of an object and its surplus.  Both
are told from the history alone: the deciding tombstone is the one in force, and
a surplus tombstone came while another one was in force and was not dropped
together with one since.

Main results: `pending_eq_some_iff` and `mem_surplus_iff`.
-/

namespace Reclaim
namespace Object

/-- A tombstone as it is kept for surplus. -/
def Tombstone.surplus (t : Tombstone) : Surplus :=
  ⟨t.date, t.shard⟩

/-- The tombstone of a row as it is kept for surplus. -/
def Row.surplus? (r : Row) : Option Surplus :=
  r.tombstone?.map Tombstone.surplus

/-- What is left of a history. -/
def Death.ofRows (rows : List Row) : Death :=
  rows.foldl (fun d r => (d.add r).1) {}

/--
A tombstone lingers as surplus: another one was in force when it came, and no
live row after both has superseded one that was in force.
-/
def Lingers (rows : List Row) (x : Surplus) : Prop :=
  ∃ before s after, rows = before ++ s :: after ∧
    s.surplus? = some x ∧
    (∃ p, InForce before p ∧ p.surplus? ≠ some x) ∧
    ∀ between row rest, after = between ++ row :: rest →
      row.IsLive → x.date < row.date →
        ∀ u, InForce (before ++ s :: between) u → ¬ u.date < row.date

section Rows

variable {rows : List Row} {r : Row} {x : Surplus}

theorem Row.surplus?_eq_some_iff :
    r.surplus? = some x ↔
      r.date = x.date ∧ ∃ payload, r.state = .dead payload x.shard := by
  obtain ⟨date, shard⟩ := x
  unfold Row.surplus? Row.tombstone? Tombstone.surplus
  cases r.state with
  | live => simp
  | dead payload' shard' => simp

theorem Row.surplus?_of_tombstone? {t : Tombstone}
    (h : r.tombstone? = some t) :
    r.surplus? = some t.surplus := by
  rw [Row.surplus?, h]
  rfl

theorem Row.surplus?_eq_none_iff : r.surplus? = none ↔ r.IsLive := by
  rw [Row.surplus?, Option.map_eq_none_iff, Row.tombstone?_eq_none_iff]

theorem Row.not_isLive_of_surplus? (h : r.surplus? = some x) :
    ¬ r.IsLive := by
  intro hl
  rw [Row.surplus?_eq_none_iff.2 hl] at h
  cases h

/-- One more row: a tombstone becomes surplus, or one lingers on. -/
theorem lingers_concat :
    Lingers (rows ++ [r]) x ↔
      (r.surplus? = some x ∧ ∃ p, InForce rows p ∧ p.surplus? ≠ some x) ∨
        (Lingers rows x ∧ (r.IsLive → x.date < r.date →
          ∀ u, InForce rows u → ¬ u.date < r.date)) := by
  constructor
  · rintro ⟨before, s, after, heq, hs, hp, hdrop⟩
    rcases List.eq_nil_or_concat after with rfl | ⟨after, last, rfl⟩
    · obtain ⟨rfl, hr⟩ := List.append_inj' heq rfl
      cases hr
      exact .inl ⟨hs, hp⟩
    · rw [List.concat_eq_append] at heq hdrop
      rw [← List.cons_append, ← List.append_assoc] at heq
      obtain ⟨rfl, hr⟩ := List.append_inj' heq rfl
      cases hr
      refine .inr ⟨⟨before, s, after, rfl, hs, hp, ?_⟩, ?_⟩
      · intro between row rest hafter
        exact hdrop between row (rest ++ [r]) (by simp [hafter])
      · exact hdrop after r [] rfl
  · rintro (⟨hs, hp⟩ | ⟨⟨before, s, after, rfl, hs, hp, hdrop⟩, hr⟩)
    · exact ⟨rows, r, [], rfl, hs, hp, by simp⟩
    · refine ⟨before, s, after ++ [r], by simp, hs, hp, ?_⟩
      intro between row rest heq
      rcases List.eq_nil_or_concat rest with rfl | ⟨rest, last, rfl⟩
      · obtain ⟨rfl, hrow⟩ := List.append_inj' heq rfl
        cases hrow
        exact hr
      · rw [List.concat_eq_append, ← List.cons_append,
          ← List.append_assoc] at heq
        obtain ⟨hafter, _⟩ := List.append_inj' heq rfl
        exact hdrop between row rest hafter

end Rows

section Add

variable {d : Death} {r : Row} {t u : Tombstone} {x : Surplus}

theorem pending_add_of_live (h : r.IsLive) :
    (d.add r).1.pending = some t ↔
      d.pending = some t ∧ ¬ t.date < r.date := by
  have hs : r.state = .live := h
  simp only [Death.add, hs, Death.addLive]
  cases hp : d.pending with
  | none => simp [hp]
  | some p =>
      by_cases hlt : compare p.date r.date = .lt
      · have hlt' : p.date < r.date := hlt
        simp only [hlt, if_true, Option.some.injEq, reduceCtorEq, false_iff,
          not_and, not_not]
        rintro rfl
        exact hlt'
      · have hlt' : ¬ p.date < r.date := hlt
        simp only [hlt, if_false, hp, Option.some.injEq, iff_self_and]
        rintro rfl
        exact hlt'

theorem pending_add_of_dead (h : r.tombstone? = some u) :
    (d.add r).1.pending = some t ↔
      d.pending = some t ∨ d.pending = none ∧ u = t := by
  obtain ⟨hd, hs⟩ := Row.tombstone?_eq_some_iff.1 h
  simp only [Death.add, hs, Death.addDead, hd]
  cases hp : d.pending with
  | none => simp
  | some p =>
      by_cases heq : p.date = u.date ∧ p.shard = u.shard
      · simp [heq, hp]
      · simp [heq]

theorem mem_surplus_add_of_live (h : r.IsLive) :
    x ∈ (d.add r).1.surplus ↔
      x ∈ d.surplus ∧
        ∀ t, d.pending = some t → t.date < r.date → ¬ x.date < r.date := by
  have hs : r.state = .live := h
  simp only [Death.add, hs, Death.addLive]
  cases hp : d.pending with
  | none => simp
  | some p =>
      by_cases hlt : compare p.date r.date = .lt
      · have hlt' : p.date < r.date := hlt
        simp only [hlt, if_true, List.mem_filter, Option.some.injEq,
          forall_eq', hlt', true_implies, decide_eq_true_eq, ne_eq]
        rfl
      · have hlt' : ¬ p.date < r.date := hlt
        simp [hlt, hlt']

/-- A tombstone becomes surplus if another one is the deciding one. -/
theorem surplus_add_of_other
    (h : r.tombstone? = some u) (hp : d.pending = some t)
    (hne : t.surplus ≠ u.surplus) :
    (d.add r).1.surplus = d.surplus ++ [u.surplus] := by
  obtain ⟨hd, hs⟩ := Row.tombstone?_eq_some_iff.1 h
  have hother : ¬ (t.date = u.date ∧ t.shard = u.shard) := by
    simpa [Tombstone.surplus] using hne
  simp only [Death.add, hs, Death.addDead, hd, hp, hother, if_false,
    Tombstone.surplus]

/-- A tombstone that decides, or is a repetition of the deciding one, is no surplus. -/
theorem surplus_add_of_no_other
    (h : r.tombstone? = some u)
    (hno : ¬ ∃ t, d.pending = some t ∧ t.surplus ≠ u.surplus) :
    (d.add r).1.surplus = d.surplus := by
  obtain ⟨hd, hs⟩ := Row.tombstone?_eq_some_iff.1 h
  simp only [Death.add, hs, Death.addDead, hd]
  cases hp : d.pending with
  | none => rfl
  | some t =>
      have hsame : t.surplus = u.surplus :=
        not_not.1 fun hne => hno ⟨t, hp, hne⟩
      have heq : t.date = u.date ∧ t.shard = u.shard := by
        simpa [Tombstone.surplus] using hsame
      simp only [heq, and_self, if_true]

theorem mem_surplus_add_of_dead (h : r.tombstone? = some u) :
    x ∈ (d.add r).1.surplus ↔
      x ∈ d.surplus ∨
        u.surplus = x ∧ ∃ t, d.pending = some t ∧ t.surplus ≠ x := by
  by_cases hother : ∃ t, d.pending = some t ∧ t.surplus ≠ u.surplus
  · obtain ⟨t, hp, hne⟩ := hother
    rw [surplus_add_of_other h hp hne, List.mem_append, List.mem_singleton]
    constructor
    · rintro (hx | rfl)
      · exact .inl hx
      · exact .inr ⟨rfl, t, hp, hne⟩
    · rintro (hx | ⟨rfl, -⟩)
      · exact .inl hx
      · exact .inr rfl
  · rw [surplus_add_of_no_other h hother]
    constructor
    · exact .inl
    · rintro (hx | ⟨rfl, hex⟩)
      · exact hx
      · exact absurd hex hother

end Add

section OfRows

variable {rows : List Row} {r : Row} {t : Tombstone} {x : Surplus}

theorem ofRows_concat :
    Death.ofRows (rows ++ [r]) = ((Death.ofRows rows).add r).1 := by
  simp [Death.ofRows]

/-- The deciding tombstone is the one in force. -/
theorem pending_eq_some_iff :
    (Death.ofRows rows).pending = some t ↔
      ∃ u, InForce rows u ∧ u.tombstone? = some t := by
  induction rows using List.reverseRecOn generalizing t with
  | nil => simp [Death.ofRows, not_inForce_nil]
  | append_singleton rows r ih =>
      rw [ofRows_concat]
      simp only [inForce_concat]
      by_cases hr : r.IsLive
      · rw [pending_add_of_live hr, ih]
        constructor
        · rintro ⟨⟨u, hu, hut⟩, hlt⟩
          have hd := (Row.tombstone?_eq_some_iff.1 hut).1
          exact ⟨u, .inr ⟨hu, fun _ => hd ▸ hlt⟩, hut⟩
        · rintro ⟨u, ⟨hn, _⟩ | ⟨hu, hlt⟩, hut⟩
          · exact absurd hr hn
          · have hd := (Row.tombstone?_eq_some_iff.1 hut).1
            exact ⟨⟨u, hu, hut⟩, hd ▸ hlt hr⟩
      · obtain ⟨v, hv⟩ := Row.exists_tombstone? hr
        rw [pending_add_of_dead hv, ih]
        constructor
        · rintro (⟨u, hu, hut⟩ | ⟨hnone, rfl⟩)
          · exact ⟨u, .inr ⟨hu, fun hl => absurd hl hr⟩, hut⟩
          · refine ⟨r, .inl ⟨hr, rfl, ?_⟩, hv⟩
            intro u hu
            obtain ⟨w, hw⟩ := Row.exists_tombstone? hu.not_isLive
            have := ih.2 ⟨u, hu, hw⟩
            rw [hnone] at this
            cases this
        · rintro ⟨u, ⟨_, rfl, hnone⟩ | ⟨hu, _⟩, hut⟩
          · refine .inr ⟨?_, Option.some.inj (hv.symm.trans hut)⟩
            cases hp : (Death.ofRows rows).pending with
            | none => rfl
            | some w =>
                obtain ⟨u, hu, _⟩ := ih.1 hp
                exact absurd hu (hnone u)
          · exact .inl ⟨u, hu, hut⟩

instance (rows : List Row) : Decidable (∃ u, InForce rows u) :=
  decidable_of_iff ((Death.ofRows rows).pending.isSome) <| by
    rw [Option.isSome_iff_exists]
    constructor
    · rintro ⟨t, ht⟩
      obtain ⟨u, hu, _⟩ := pending_eq_some_iff.1 ht
      exact ⟨u, hu⟩
    · rintro ⟨u, hu⟩
      obtain ⟨t, ht⟩ := Row.exists_tombstone? hu.not_isLive
      exact ⟨t, pending_eq_some_iff.2 ⟨u, hu, ht⟩⟩

theorem exists_pending_surplus_ne_iff :
    (∃ t, (Death.ofRows rows).pending = some t ∧ t.surplus ≠ x) ↔
      ∃ u, InForce rows u ∧ u.surplus? ≠ some x := by
  constructor
  · rintro ⟨t, ht, hne⟩
    obtain ⟨u, hu, hut⟩ := pending_eq_some_iff.1 ht
    refine ⟨u, hu, ?_⟩
    rw [Row.surplus?_of_tombstone? hut]
    exact fun h => hne (Option.some.inj h)
  · rintro ⟨u, hu, hne⟩
    obtain ⟨t, hut⟩ := Row.exists_tombstone? hu.not_isLive
    refine ⟨t, pending_eq_some_iff.2 ⟨u, hu, hut⟩, ?_⟩
    rw [Row.surplus?_of_tombstone? hut] at hne
    exact fun h => hne (congrArg some h)

/-- The surplus is what lingers. -/
theorem mem_surplus_iff :
    x ∈ (Death.ofRows rows).surplus ↔ Lingers rows x := by
  induction rows using List.reverseRecOn with
  | nil => simp [Death.ofRows, Lingers]
  | append_singleton rows r ih =>
      rw [ofRows_concat, lingers_concat]
      by_cases hr : r.IsLive
      · rw [mem_surplus_add_of_live hr, ih, Row.surplus?_eq_none_iff.2 hr]
        simp only [reduceCtorEq, false_and, false_or, and_congr_right_iff]
        intro _
        constructor
        · intro h _ hx u hu hlt
          obtain ⟨w, hw⟩ := Row.exists_tombstone? hu.not_isLive
          have hd := (Row.tombstone?_eq_some_iff.1 hw).1
          exact h w (pending_eq_some_iff.2 ⟨u, hu, hw⟩) (hd ▸ hlt) hx
        · intro h w hw hlt hx
          obtain ⟨u, hu, hut⟩ := pending_eq_some_iff.1 hw
          have hd := (Row.tombstone?_eq_some_iff.1 hut).1
          exact h hr hx u hu (hd ▸ hlt)
      · obtain ⟨v, hv⟩ := Row.exists_tombstone? hr
        rw [mem_surplus_add_of_dead hv, ih, exists_pending_surplus_ne_iff,
          Row.surplus?_of_tombstone? hv, Option.some.injEq]
        constructor
        · rintro (h | h)
          · exact .inr ⟨h, fun hl => absurd hl hr⟩
          · exact .inl h
        · rintro (h | ⟨h, _⟩)
          · exact .inr h
          · exact .inl h

end OfRows

end Object
end Reclaim
