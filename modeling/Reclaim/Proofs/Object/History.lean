import Mathlib.Data.List.Induction
import Reclaim.Object.Collector
import Reclaim.Proofs.Stream.Groups

/-!
# Histories of objects

The history of an object is the list of its rows in the order of their dates,
on each date the tombstones before the live rows.  A live row supersedes the
tombstones before its date.  A tombstone is in force if none was in force when
it came and no later live row supersedes it.

Main results: `InForce.unique` says that at most one tombstone is in force, and
`InForce.not_superseded` that no live row of the history supersedes it.
-/

namespace Reclaim
namespace Object

namespace Row

/-- The object was live at the date of the row. -/
def IsLive (r : Row) : Prop :=
  r.state = .live

instance (r : Row) : Decidable r.IsLive :=
  match h : r.state with
  | .live => isTrue h
  | .dead _ _ => isFalse fun hl => by
      rw [IsLive, h] at hl
      cases hl

/-- The tombstone of a row that is not live. -/
def tombstone? (r : Row) : Option Tombstone :=
  match r.state with
  | .live => none
  | .dead payload shard => some ⟨r.date, payload, shard⟩

theorem tombstone?_eq_none_iff {r : Row} :
    r.tombstone? = none ↔ r.IsLive := by
  unfold tombstone? IsLive
  cases r.state with
  | live => simp
  | dead payload shard => simp

theorem tombstone?_eq_some_iff {r : Row} {t : Tombstone} :
    r.tombstone? = some t ↔
      r.date = t.date ∧ r.state = .dead t.payload t.shard := by
  obtain ⟨date, payload, shard⟩ := t
  unfold tombstone?
  cases r.state with
  | live => simp
  | dead payload' shard' => simp

theorem not_isLive_of_tombstone? {r : Row} {t : Tombstone}
    (h : r.tombstone? = some t) : ¬ r.IsLive := by
  intro hl
  rw [tombstone?_eq_none_iff.2 hl] at h
  cases h

theorem exists_tombstone? {r : Row} (h : ¬ r.IsLive) :
    ∃ t, r.tombstone? = some t := by
  cases ht : r.tombstone? with
  | none => exact absurd (tombstone?_eq_none_iff.1 ht) h
  | some t => exact ⟨t, rfl⟩

end Row

/-- The rows of an object, in their order. -/
abbrev history (objectId : String) (rows : List Row) : List Row :=
  Stream.rowsOf Row.objectId objectId rows

/-- A live row of the history is later than the date. -/
def Superseded (rows : List Row) (date : Time.Instant) : Prop :=
  ∃ row ∈ rows, row.IsLive ∧ date < row.date

instance (rows : List Row) (date : Time.Instant) :
    Decidable (Superseded rows date) :=
  inferInstanceAs (Decidable (∃ row ∈ rows, row.IsLive ∧ date < row.date))

/--
A tombstone is in force after rows if none was in force when it came and no
live row after it is later.
-/
def InForce (rows : List Row) (t : Row) : Prop :=
  ∃ before after, ∃ _ : rows = before ++ t :: after,
    ¬ t.IsLive ∧ (∀ u, ¬ InForce before u) ∧
      ∀ row ∈ after, row.IsLive → ¬ t.date < row.date
termination_by rows.length
decreasing_by
  subst rows
  simp only [List.length_append, List.length_cons]
  omega

section InForce

variable {rows more : List Row} {r t u : Row}

theorem not_inForce_nil : ¬ InForce [] t := by
  rw [InForce]
  rintro ⟨before, after, h, _⟩
  simp at h

theorem InForce.not_isLive (h : InForce rows t) : ¬ t.IsLive := by
  rw [InForce] at h
  obtain ⟨_, _, _, ht, _⟩ := h
  exact ht

theorem InForce.mem (h : InForce rows t) : t ∈ rows := by
  rw [InForce] at h
  obtain ⟨before, after, rfl, _⟩ := h
  simp

/-- One more row: a tombstone comes into force if there is none, or one stays in force. -/
theorem inForce_concat :
    InForce (rows ++ [r]) t ↔
      (¬ r.IsLive ∧ r = t ∧ ∀ u, ¬ InForce rows u) ∨
        (InForce rows t ∧ (r.IsLive → ¬ t.date < r.date)) := by
  constructor
  · intro h
    rw [InForce] at h
    obtain ⟨before, after, heq, ht, hnone, hafter⟩ := h
    rcases List.eq_nil_or_concat after with rfl | ⟨after, last, rfl⟩
    · obtain ⟨rfl, hr⟩ := List.append_inj' heq rfl
      cases hr
      exact .inl ⟨ht, rfl, hnone⟩
    · rw [List.concat_eq_append] at heq hafter
      rw [← List.cons_append, ← List.append_assoc] at heq
      obtain ⟨rfl, hr⟩ := List.append_inj' heq rfl
      cases hr
      refine .inr ⟨?_, hafter r (by simp)⟩
      rw [InForce]
      exact ⟨before, after, rfl, ht, hnone,
        fun row hm => hafter row (by simp [hm])⟩
  · rintro (⟨hr, rfl, hnone⟩ | ⟨h, hr⟩)
    · rw [InForce]
      exact ⟨rows, [], rfl, hr, hnone, by simp⟩
    · rw [InForce] at h
      obtain ⟨before, after, rfl, ht, hnone, hafter⟩ := h
      rw [InForce]
      refine ⟨before, after ++ [r], by simp, ht, hnone, ?_⟩
      intro row hm
      rcases List.mem_append.1 hm with hm | hm
      · exact hafter row hm
      · rw [List.mem_singleton.1 hm]
        exact hr

/-- A tombstone stays in force as long as no live row is later. -/
theorem InForce.append
    (h : InForce rows t)
    (hm : ∀ row ∈ more, row.IsLive → ¬ t.date < row.date) :
    InForce (rows ++ more) t := by
  induction more using List.reverseRecOn with
  | nil => simpa using h
  | append_singleton more r ih =>
      rw [← List.append_assoc, inForce_concat]
      exact .inr ⟨ih fun row hr => hm row (by simp [hr]), hm r (by simp)⟩

/-- At most one tombstone is in force. -/
theorem InForce.unique
    (ht : InForce rows t) (hu : InForce rows u) : t = u := by
  induction rows using List.reverseRecOn with
  | nil => exact absurd ht not_inForce_nil
  | append_singleton rows r ih =>
      rw [inForce_concat] at ht hu
      rcases ht with ⟨_, rfl, hnone⟩ | ⟨ht, _⟩
      · rcases hu with ⟨_, rfl, _⟩ | ⟨hu, _⟩
        · rfl
        · exact absurd hu (hnone u)
      · rcases hu with ⟨_, rfl, hnone⟩ | ⟨hu, _⟩
        · exact absurd ht (hnone t)
        · exact ih ht hu

/-- What is in force after more rows was in force before, or came into force among them. -/
theorem InForce.of_append (h : InForce (rows ++ more) t) :
    InForce rows t ∨
      ∃ before after, more = before ++ t :: after ∧
        ∀ u, ¬ InForce (rows ++ before) u := by
  induction more using List.reverseRecOn with
  | nil =>
      rw [List.append_nil] at h
      exact .inl h
  | append_singleton more r ih =>
      rw [← List.append_assoc, inForce_concat] at h
      rcases h with ⟨_, rfl, hnone⟩ | ⟨h, _⟩
      · exact .inr ⟨more, [], rfl, hnone⟩
      · rcases ih h with h | ⟨before, after, rfl, hnone⟩
        · exact .inl h
        · exact .inr ⟨before, after ++ [r], by simp, hnone⟩

end InForce

/-- The dates are in order, and a tombstone does not follow a live row of its date. -/
def Row.Precedes (a b : Row) : Prop :=
  a.date ≤ b.date ∧ (a.IsLive → b.date ≤ a.date → b.IsLive)

/-- Dates never fall, and on each date the tombstones come first. -/
def Ordered (rows : List Row) : Prop :=
  rows.Pairwise Row.Precedes

section Ordered

variable {before after rows : List Row} {r t : Row}

theorem Ordered.precedes_of_before
    (h : Ordered (before ++ t :: after)) (hr : r ∈ before) :
    r.Precedes t :=
  (List.pairwise_append.1 h).2.2 r hr t List.mem_cons_self

theorem Ordered.precedes_of_after
    (h : Ordered (before ++ t :: after)) (hr : r ∈ after) :
    t.Precedes r :=
  (List.pairwise_cons.1 (List.pairwise_append.1 h).2.1).1 r hr

theorem Ordered.append_left (h : Ordered (before ++ after)) :
    Ordered before :=
  (List.pairwise_append.1 h).1

/-- A row with an earlier date than another one comes before it. -/
theorem Ordered.mem_before_of_lt
    (h : Ordered (before ++ t :: after)) (hr : r ∈ before ++ t :: after)
    (hlt : r.date < t.date) :
    r ∈ before := by
  rcases List.mem_append.1 hr with hr | hr
  · exact hr
  · rcases List.mem_cons.1 hr with rfl | hr
    · exact absurd hlt (lt_irrefl _)
    · exact absurd hlt (not_lt_of_ge (h.precedes_of_after hr).1)

/-- A row with a later date than another one comes after it. -/
theorem Ordered.mem_after_of_lt
    (h : Ordered (before ++ t :: after)) (hr : r ∈ before ++ t :: after)
    (hlt : t.date < r.date) :
    r ∈ after := by
  rcases List.mem_append.1 hr with hr | hr
  · exact absurd hlt (not_lt_of_ge (h.precedes_of_before hr).1)
  · rcases List.mem_cons.1 hr with rfl | hr
    · exact absurd hlt (lt_irrefl _)
    · exact hr

/-- The rows of an object in a stream in order are ordered. -/
theorem ordered_history
    {objectId : String} (h : Stream.InOrder Row.key rows) :
    Ordered (history objectId rows) := by
  have hf : Stream.InOrder Row.key (history objectId rows) :=
    List.Pairwise.filter _ h
  refine List.Pairwise.imp_of_mem ?_ hf
  intro a b ha hb hle
  have hid : a.objectId = b.objectId :=
    (Stream.mem_rowsOf.1 ha).2.trans (Stream.mem_rowsOf.1 hb).2.symm
  have hrest := Stream.snd_le_of_le hle hid
  refine ⟨Stream.fst_le_of_le hrest, ?_⟩
  intro hlive hdate
  have hsame : a.date = b.date :=
    le_antisymm (Stream.fst_le_of_le hrest) hdate
  have htag := Stream.snd_le_of_le hrest hsame
  unfold Row.IsLive at hlive ⊢
  cases hb : b.state with
  | live => rfl
  | dead payload shard =>
      simp only [Row.key, hlive, hb, State.tag] at htag
      exact absurd htag (by decide)

/-- No live row of an ordered history supersedes the tombstone in force. -/
theorem InForce.not_superseded
    (ho : Ordered rows) (h : InForce rows t) :
    ¬ Superseded rows t.date := by
  rw [InForce] at h
  obtain ⟨before, after, rfl, _, _, hafter⟩ := h
  rintro ⟨row, hrow, hlive, hlt⟩
  exact hafter row (ho.mem_after_of_lt hrow hlt) hlive hlt

/-- No live row stands between two tombstones of one date. -/
theorem Ordered.not_isLive_between
    {s : Row} {between rest : List Row}
    (ho : Ordered (before ++ s :: (between ++ t :: rest)))
    (ht : ¬ t.IsLive) (hle : t.date ≤ s.date) :
    ∀ row ∈ between, ¬ row.IsLive := by
  intro row hrow hlive
  have hsr := ho.precedes_of_after (List.mem_append_left _ hrow)
  rw [← List.cons_append, ← List.append_assoc] at ho
  have hrt := ho.precedes_of_before
    (List.mem_append_right before (List.mem_cons_of_mem s hrow))
  exact ht (hrt.2 hlive (le_trans hle hsr.1))

/-- The tombstone in force stays so between two tombstones of one date. -/
theorem InForce.append_of_tied
    {p s : Row} {between rest : List Row}
    (ho : Ordered (before ++ s :: (between ++ t :: rest)))
    (hp : InForce before p) (hs : ¬ s.IsLive) (ht : ¬ t.IsLive)
    (hle : t.date ≤ s.date) :
    InForce (before ++ s :: between) p := by
  apply hp.append
  intro row hrow hlive
  rcases List.mem_cons.1 hrow with rfl | hrow
  · exact absurd hlive hs
  · exact absurd hlive (ho.not_isLive_between ht hle row hrow)

/--
If a tombstone comes while another one is in force, then what is in force in the
end is that other one or later than the tombstone.
-/
theorem InForce.eq_or_lt
    {p s : Row} (hp : InForce before p) (ho : Ordered (before ++ s :: after))
    (hs : ¬ s.IsLive) (ht : InForce (before ++ s :: after) t) :
    t = p ∨ s.date < t.date := by
  rcases ht.of_append with hbefore | ⟨between, rest, heq, hnone⟩
  · exact .inl (hbefore.unique hp)
  · cases between with
    | nil =>
        rw [List.append_nil] at hnone
        exact absurd hp (hnone p)
    | cons s' between =>
        rw [List.cons_append] at heq
        obtain ⟨rfl, rfl⟩ := List.cons.inj heq
        refine .inr (not_le.1 fun hle => ?_)
        exact hnone p (hp.append_of_tied ho hs ht.not_isLive hle)

end Ordered

end Object
end Reclaim
