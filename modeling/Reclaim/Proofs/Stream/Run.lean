import Reclaim.Proofs.Stream.Groups
import Reclaim.Stream.Groups

/-!
# Runs over streams in order

A run over a stream in order is not refused.  An engine that works groupwise
decides about each group of neighbouring rows on its own, and since names follow
the keys, a group holds all rows of its name: what a whole run gives is put
together from what the rows of each name give.  The engine of a `Grouping` works
in this way.

Main results: `Engine.Groupwise.run_eq_names` and `Grouping.groupwise`.
-/

namespace Reclaim
namespace Stream

namespace Engine

variable {σ ρ α β : Type}

theorem run_nil (e : Engine σ ρ α) (s : σ) :
    e.run s [] = ((e.finish s).1, .ok (e.finish s).2) := by
  simp [run, feed]

/-- A run that takes its first row goes on with the state after it. -/
theorem run_cons_of_ok
    {e : Engine σ ρ α} {s s' : σ} {r : ρ} {first : List α}
    (h : e.offer s r = (s', .ok first)) (rs : List ρ) :
    e.run s (r :: rs) =
      ((e.run s' rs).1, (e.run s' rs).2.map (first ++ ·)) := by
  simp only [run, feed, h]
  cases hf : e.feed s' rs with
  | mk s₂ answer =>
      cases answer with
      | error fault => rfl
      | ok rest => simp [Except.map]

/-- A run that refuses its first row ends there. -/
theorem run_cons_of_error
    {e : Engine σ ρ α} {s s' : σ} {r : ρ} {fault : Fault}
    (h : e.offer s r = (s', .error fault)) (rs : List ρ) :
    e.run s (r :: rs) = (s', .error fault) := by
  simp [run, feed, h]

/-- What is made of each action can be made of all of them at the end. -/
theorem run_thenEach
    (e : Engine σ ρ α) (f : α → List β) (s : σ) (rows : List ρ) :
    (e.thenEach f).run s rows =
      ((e.run s rows).1, (e.run s rows).2.map (·.flatMap f)) := by
  induction rows generalizing s with
  | nil =>
      rw [run_nil, run_nil]
      rfl
  | cons r rs ih =>
      cases h : e.offer s r with
      | mk s' answer =>
          cases answer with
          | error fault =>
              have h' : (e.thenEach f).offer s r = (s', .error fault) := by
                simp [thenEach, h, Except.map]
              rw [run_cons_of_error h, run_cons_of_error h']
              rfl
          | ok first =>
              have h' : (e.thenEach f).offer s r =
                  (s', .ok (first.flatMap f)) := by
                simp [thenEach, h, Except.map]
              rw [run_cons_of_ok h, run_cons_of_ok h', ih s']
              cases (e.run s' rs).2 with
              | error fault => rfl
              | ok rest => simp [Except.map]

/-- What an engine gives for rows up to the first one that is refused. -/
def outputs (e : Engine σ ρ α) (s : σ) : List ρ → List α
  | [] => (e.finish s).2
  | r :: rs =>
      match e.offer s r with
      | (_, .error _) => []
      | (s, .ok first) => first ++ e.outputs s rs

/-- A run without a refusal answers with all that the engine gives. -/
theorem outputs_of_run
    {e : Engine σ ρ α} {s : σ} {rows : List ρ} {actions : List α}
    (h : (e.run s rows).2 = .ok actions) :
    e.outputs s rows = actions := by
  induction rows generalizing s actions with
  | nil =>
      rw [run_nil] at h
      exact Except.ok.inj h
  | cons r rs ih =>
      cases hoffer : e.offer s r with
      | mk s' answer =>
          cases answer with
          | error fault =>
              rw [run_cons_of_error hoffer] at h
              cases h
          | ok first =>
              rw [run_cons_of_ok hoffer] at h
              cases hrun : (e.run s' rs).2 with
              | error fault => simp [hrun, Except.map] at h
              | ok rest =>
                  simp only [hrun, Except.map, Except.ok.injEq] at h
                  simp only [outputs, hoffer, ih hrun, h]

section Groupwise

variable {β : Type} {κ : Type} [SortKey κ]

/--
An engine works groupwise from a state on: rows in order of one name are only
kept, and with a row of another name or at the end it decides about those kept.
`After last rows s` tells that `s` is a state after the rows of the group that
is open, of which `last` is the last one.
-/
structure Groupwise
    (e : Engine σ ρ α) (start : σ) (key : ρ → κ) (name : ρ → β)
    (decide : β → List ρ → List α) (After : ρ → List ρ → σ → Prop) :
    Prop where
  finish_start : (e.finish start).2 = []
  offer_start : ∀ r, ∃ s',
    e.offer start r = (s', .ok []) ∧ After r [r] s'
  offer_same : ∀ last rows s r, After last rows s →
    (compare (key last) (key r)).isLE → name r = name last →
      ∃ s', e.offer s r = (s', .ok []) ∧ After r (rows ++ [r]) s'
  offer_other : ∀ last rows s r, After last rows s →
    (compare (key last) (key r)).isLE → name r ≠ name last →
      ∃ s', e.offer s r = (s', .ok (decide (name last) rows)) ∧
        After r [r] s'
  finish_after : ∀ last rows s, After last rows s →
    (e.finish s).2 = decide (name last) rows

namespace Groupwise

variable {e : Engine σ ρ α} {start : σ} {key : ρ → κ} {name : ρ → β}
variable {decide : β → List ρ → List α} {After : ρ → List ρ → σ → Prop}
variable [DecidableEq β]

/-- After rows of an open group, a run decides about it and about the groups that follow. -/
theorem run_after
    (hg : Groupwise e start key name decide After)
    {last : ρ} {before rows : List ρ} {s : σ}
    (hs : After last before s) (h : InOrder key (last :: rows)) :
    (e.run s rows).2 =
      .ok ((groupsAfter name (name last) before rows).flatMap
        fun g => decide g.1 g.2) := by
  induction rows generalizing last before s with
  | nil =>
      rw [run_nil, hg.finish_after last before s hs]
      simp [groupsAfter]
  | cons r rs ih =>
      have hle := h.le_of_mem List.mem_cons_self
      by_cases hn : name r = name last
      · obtain ⟨s', hoffer, hs'⟩ := hg.offer_same last before s r hs hle hn
        rw [run_cons_of_ok hoffer, ih hs' h.tail, groupsAfter, if_pos hn, hn]
        simp [Except.map]
      · obtain ⟨s', hoffer, hs'⟩ := hg.offer_other last before s r hs hle hn
        rw [run_cons_of_ok hoffer, ih hs' h.tail, groupsAfter, if_neg hn]
        simp [Except.map]

/-- A run over a stream in order decides about each group of neighbouring rows. -/
theorem run_eq_groups
    (hg : Groupwise e start key name decide After)
    {rows : List ρ} (h : InOrder key rows) :
    (e.run start rows).2 =
      .ok ((groups name rows).flatMap fun g => decide g.1 g.2) := by
  cases rows with
  | nil =>
      rw [run_nil, hg.finish_start]
      rfl
  | cons r rs =>
      obtain ⟨s', hoffer, hs'⟩ := hg.offer_start r
      rw [run_cons_of_ok hoffer, hg.run_after hs' h, groups]
      simp [Except.map]

/-- A run over a stream in order decides about all rows of a name at once. -/
theorem run_eq_names
    [SortKey β] [Std.TransOrd κ] [Std.TransOrd β] [Std.LawfulEqOrd β]
    (hg : Groupwise e start key name decide After)
    {rows : List ρ} (hn : NamesFollow key name) (h : InOrder key rows) :
    (e.run start rows).2 =
      .ok ((names name rows).flatMap fun b =>
        decide b (rowsOf name b rows)) := by
  rw [hg.run_eq_groups h, groups_eq hn h, List.flatMap_map]

end Groupwise

end Groupwise

end Engine

namespace Grouping

section Rows

variable {ρ κ γ χ α : Type}

/-- What is kept of the rows of a group. -/
def keep (p : Grouping ρ κ γ χ α) (rows : List ρ) : γ :=
  rows.foldl (fun kept r => (p.add kept r).1) p.empty

/-- What is done about a group with the given rows. -/
def decide (p : Grouping ρ κ γ χ α) (name : String) (rows : List ρ) :
    List α :=
  (p.close name (p.keep rows)).1

theorem keep_append (p : Grouping ρ κ γ χ α) (rows : List ρ) (r : ρ) :
    p.keep (rows ++ [r]) = (p.add (p.keep rows) r).1 := by
  simp [keep]

end Rows

section Run

variable {ρ κ γ χ α : Type} [SortKey κ] [Counters χ]

/-- A state after rows of an open group. -/
structure After
    (p : Grouping ρ κ γ χ α) (last : ρ) (rows : List ρ)
    (s : Groups κ γ χ) : Prop where
  guard : s.guard = ⟨some (p.key last)⟩
  current : s.current = some (p.group last, p.keep rows)

section Step

variable {p : Grouping ρ κ γ χ α} {last r : ρ} {rows : List ρ}
variable {s : Groups κ γ χ}

/-- A row that is not before the last one is taken. -/
theorem offer_of_le
    [Std.OrientedOrd κ]
    (hs : After p last rows s)
    (hle : (compare (p.key last) (p.key r)).isLE) :
    p.offer s r = ((p.take s ⟨some (p.key r)⟩ r).1,
      .ok (p.take s ⟨some (p.key r)⟩ r).2) := by
  simp only [offer, hs.guard, Guard.accept_of_le hle]

/-- A row of the open group is kept and nothing is done yet. -/
theorem offer_of_same
    [Std.OrientedOrd κ]
    (hs : After p last rows s)
    (hle : (compare (p.key last) (p.key r)).isLE)
    (hg : p.group r = p.group last) :
    ∃ s', p.offer s r = (s', .ok []) ∧ After p r (rows ++ [r]) s' := by
  refine ⟨(p.take s ⟨some (p.key r)⟩ r).1, ?_, ?_, ?_⟩
  · rw [offer_of_le hs hle]
    simp only [take, enter, hs.current, hg, if_true]
  · simp only [take, enter, hs.current, hg, if_true, addRow]
  · simp only [take, enter, hs.current, hg, if_true, addRow, keep_append]

/-- A row of another group closes the one that is open. -/
theorem offer_of_other
    [Std.OrientedOrd κ]
    (hs : After p last rows s)
    (hle : (compare (p.key last) (p.key r)).isLE)
    (hg : p.group r ≠ p.group last) :
    ∃ s', p.offer s r = (s', .ok (p.decide (p.group last) rows)) ∧
      After p r [r] s' := by
  refine ⟨(p.take s ⟨some (p.key r)⟩ r).1, ?_, ?_, ?_⟩
  · rw [offer_of_le hs hle]
    simp only [take, enter, hs.current, hg.symm, if_false, openGroup,
      closeCurrent, decide]
  · simp only [take, enter, hs.current, hg.symm, if_false, openGroup,
      closeCurrent, addRow]
  · simp only [take, enter, hs.current, hg.symm, if_false, openGroup,
      closeCurrent, addRow, keep, List.foldl_cons, List.foldl_nil]

/-- The first row opens its group. -/
theorem offer_start (p : Grouping ρ κ γ χ α) (r : ρ) :
    ∃ s', p.offer .start r = (s', .ok []) ∧ After p r [r] s' := by
  refine ⟨(p.take .start ⟨some (p.key r)⟩ r).1, ?_, ?_, ?_⟩
  · simp only [offer, Groups.start, Guard.start, Guard.accept, take, enter,
      openGroup, closeCurrent]
  · simp only [Groups.start, take, enter, openGroup, closeCurrent, addRow]
  · simp only [Groups.start, take, enter, openGroup, closeCurrent, addRow,
      keep, List.foldl_cons, List.foldl_nil]

end Step

/-- The engine of a grouping works groupwise. -/
theorem groupwise [Std.OrientedOrd κ] (p : Grouping ρ κ γ χ α) :
    p.engine.Groupwise .start p.key p.group p.decide (After p) where
  finish_start := rfl
  offer_start := offer_start p
  offer_same _ _ _ _ hs hle hg := offer_of_same hs hle hg
  offer_other _ _ _ _ hs hle hg := offer_of_other hs hle hg
  finish_after last rows s hs := by
    simp only [engine, closeCurrent, hs.current, decide]

end Run

end Grouping

end Stream
end Reclaim
