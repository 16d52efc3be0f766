import Reclaim.Proofs.Stream.Run
import Reclaim.Proofs.Stream.Through

/-!
# Rows that are refused

An engine may be offered rows that it refuses.  It is traceless if such a row
changes nothing but what a `view` of its states leaves out: then it makes of all
rows what it makes of those it takes.  An engine guards the order of its rows if
it refuses exactly those that come before the last one it has taken.

Main results: `Engine.GuardsOrder.refusesUnsorted` puts both together, and
`Grouping.guardsOrder` and `Grouping.traceless` give it for the engines that
work in groups.
-/

namespace Reclaim
namespace Stream

section Order

variable {ρ κ : Type} [SortKey κ] {key : ρ → κ}

theorem InOrder.nil : InOrder key [] :=
  List.Pairwise.nil

/-- A row that is not before the last one keeps a stream in order. -/
theorem InOrder.concat
    [Std.TransOrd κ] {rows : List ρ} {r : ρ} (h : InOrder key rows)
    (hr : ∀ last ∈ rows.getLast?, compare (key r) (key last) ≠ .lt) :
    InOrder key (rows ++ [r]) := by
  rcases List.eq_nil_or_concat rows with rfl | ⟨before, last, rfl⟩
  · exact List.pairwise_singleton _ r
  · rw [List.concat_eq_append] at h hr ⊢
    have hlast : (compare (key last) (key r)).isLE :=
      Ordering.isLE_iff_ne_gt.2 fun hgt =>
        hr last (by simp) (Std.OrientedCmp.lt_of_gt hgt)
    refine List.pairwise_append.2 ⟨h, List.pairwise_singleton _ r, ?_⟩
    rintro a ha b hb
    obtain rfl := List.mem_singleton.1 hb
    rcases List.mem_append.1 ha with ha | ha
    · have hle := (List.pairwise_append.1 h).2.2 a ha last List.mem_cons_self
      exact Std.TransCmp.isLE_trans hle hlast
    · obtain rfl := List.mem_singleton.1 ha
      exact hlast

/-- The last row of a stream in order is not before any other. -/
theorem InOrder.le_getLast
    [Std.TransOrd κ] {rows : List ρ} {r last : ρ} (h : InOrder key rows)
    (hr : r ∈ rows) (hlast : last ∈ rows.getLast?) :
    (compare (key r) (key last)).isLE := by
  obtain ⟨before, rfl⟩ := List.getLast?_eq_some_iff.1 hlast
  rcases List.mem_append.1 hr with hr | hr
  · exact (List.pairwise_append.1 h).2.2 r hr last List.mem_cons_self
  · obtain rfl := List.mem_singleton.1 hr
    rw [Std.ReflOrd.compare_self]
    rfl

end Order

namespace Guard

variable {ρ κ : Type} [SortKey κ]

/-- A guard stops exactly the keys before its last one. -/
theorem accept_eq_error_iff {g : Guard κ} {key : κ} {fault : Fault} :
    g.accept key = .error fault ↔
      ∃ previous ∈ g.last, compare key previous = .lt ∧
        fault = .outOfOrder (shown key) (shown previous) := by
  obtain ⟨last⟩ := g
  cases last with
  | none => simp [accept]
  | some previous =>
      by_cases h : compare key previous = .lt
      · simp [accept, h, eq_comm]
      · simp [accept, h]

/-- The fault of a row that comes before the last one. -/
def refusal (key : ρ → κ) (last r : ρ) : Fault :=
  .outOfOrder (shown (key r)) (shown (key last))

/-- A guard that has let the keys of rows through. -/
structure Seen (key : ρ → κ) (rows : List ρ) (g : Guard κ) : Prop where
  last : g.last = rows.getLast?.map key
  inOrder : InOrder key rows

variable {key : ρ → κ} {rows : List ρ} {g g' : Guard κ} {r : ρ}

theorem seen_start : Seen key [] Guard.start :=
  ⟨rfl, .nil⟩

/-- A row whose key is let through comes after the rows before it. -/
theorem Seen.accept
    [Std.TransOrd κ] (hg : Seen key rows g) (h : g.accept (key r) = .ok g') :
    Seen key (rows ++ [r]) g' := by
  obtain ⟨rfl, hr⟩ := accept_eq_ok_iff.1 h
  refine ⟨by simp, hg.inOrder.concat ?_⟩
  intro last hlast
  exact hr (key last) (by rw [hg.last]; exact Option.mem_map_of_mem key hlast)

theorem Seen.accept_eq_error_iff
    (hg : Seen key rows g) {fault : Fault} :
    g.accept (key r) = .error fault ↔
      ∃ last ∈ rows.getLast?, compare (key r) (key last) = .lt ∧
        fault = refusal key last r := by
  rw [Guard.accept_eq_error_iff, hg.last]
  cases rows.getLast? <;> simp [refusal]

end Guard

namespace Engine

variable {σ ρ α ν : Type}

/-- The rows that an engine does not refuse. -/
def taken (e : Engine σ ρ α) (s : σ) : List ρ → List ρ
  | [] => []
  | r :: rs =>
      match e.offer s r with
      | (s, .error _) => e.taken s rs
      | (s, .ok _) => r :: e.taken s rs

/-- The answers to rows, one for each. -/
def answers (e : Engine σ ρ α) (s : σ) :
    List ρ → List (Except Fault (List α))
  | [] => []
  | r :: rs => (e.offer s r).2 :: e.answers (e.offer s r).1 rs

/-- What an engine gives at the end of rows of which it may have refused some, and its last state. -/
def endAfter (e : Engine σ ρ α) (s : σ) (rows : List ρ) : σ × List α :=
  e.finish (e.feedThrough s rows).1

/-- Every refusal of an engine ends a run. -/
def RefusesFatally (e : Engine σ ρ α) : Prop :=
  ∀ s r fault, (e.offer s r).2 = .error fault → fault.isFatal

section Feed

variable {e : Engine σ ρ α} {s s' : σ} {r : ρ} {rs rows : List ρ}
variable {actions : List α} {fault : Fault}

/-- Rows that are all taken start with a row that is taken. -/
theorem feed_cons_eq_ok (h : e.feed s (r :: rs) = (s', .ok actions)) :
    ∃ s₁ first rest, e.offer s r = (s₁, .ok first) ∧
      e.feed s₁ rs = (s', .ok rest) ∧ actions = first ++ rest := by
  cases step : e.offer s r with
  | mk s₁ answer =>
      cases answer with
      | error f => simp [feed, step] at h
      | ok first =>
          simp only [feed, step, Prod.mk.injEq] at h
          obtain ⟨rest, hrest, rfl⟩ := Success.of_map h.2
          exact ⟨s₁, first, rest, rfl, Prod.ext h.1 hrest, rfl⟩

/-- Of rows that are not all taken, the first is refused or one of the rest. -/
theorem feed_cons_eq_error (h : e.feed s (r :: rs) = (s', .error fault)) :
    e.offer s r = (s', .error fault) ∨
      ∃ s₁ first, e.offer s r = (s₁, .ok first) ∧
        e.feed s₁ rs = (s', .error fault) := by
  cases step : e.offer s r with
  | mk s₁ answer =>
      cases answer with
      | error f =>
          simp only [feed, step] at h
          exact .inl h
      | ok first =>
          simp only [feed, step, Prod.mk.injEq] at h
          refine .inr ⟨s₁, first, rfl, Prod.ext h.1 ?_⟩
          cases hrest : (e.feed s₁ rs).2 with
          | error f => simpa [hrest, Except.map] using h.2
          | ok rest => simp [hrest, Except.map] at h

/-- Rows are fed with a fault if one is refused after rows that have all been taken. -/
theorem feed_eq_error_iff :
    e.feed s rows = (s', .error fault) ↔
      ∃ before r after s₁ actions, rows = before ++ r :: after ∧
        e.feed s before = (s₁, .ok actions) ∧
        e.offer s₁ r = (s', .error fault) := by
  constructor
  · intro h
    induction rows generalizing s with
    | nil => cases h
    | cons r rs ih =>
        rcases feed_cons_eq_error h with hoffer | ⟨s₁, first, hoffer, hrest⟩
        · exact ⟨[], r, rs, s, [], rfl, rfl, hoffer⟩
        · obtain ⟨before, r', after, s₂, actions, rfl, hfeed, hrefused⟩ :=
            ih hrest
          refine ⟨r :: before, r', after, s₂, first ++ actions, rfl, ?_,
            hrefused⟩
          simp only [feed, hoffer, hfeed, Except.map]
  · rintro ⟨before, r, after, s₁, actions, rfl, hfeed, hrefused⟩
    rw [feed_append, hfeed]
    simp only [feed, hrefused]
    rfl

/-- A run fails with the refusal of a row after rows that have all been taken. -/
theorem run_eq_error_iff :
    (e.run s rows).2 = .error fault ↔
      ∃ before r after s₁ actions, rows = before ++ r :: after ∧
        e.feed s before = (s₁, .ok actions) ∧
        (e.offer s₁ r).2 = .error fault := by
  have hrun : (e.run s rows).2 = .error fault ↔
      ∃ s', e.feed s rows = (s', .error fault) := by
    unfold run
    rcases e.feed s rows with ⟨s', f | actions⟩ <;> simp
  rw [hrun]
  constructor
  · rintro ⟨s', h⟩
    obtain ⟨before, r, after, s₁, actions, hrows, hfeed, hrefused⟩ :=
      feed_eq_error_iff.1 h
    exact ⟨before, r, after, s₁, actions, hrows, hfeed, by rw [hrefused]⟩
  · rintro ⟨before, r, after, s₁, actions, hrows, hfeed, hrefused⟩
    exact ⟨(e.offer s₁ r).1, feed_eq_error_iff.2
      ⟨before, r, after, s₁, actions, hrows, hfeed, Prod.ext rfl hrefused⟩⟩

end Feed

section Steps

variable {e : Engine σ ρ α} {s s' : σ} {r : ρ} {first : List α} {fault : Fault}

theorem taken_cons_of_ok (h : e.offer s r = (s', .ok first)) (rs : List ρ) :
    e.taken s (r :: rs) = r :: e.taken s' rs := by
  simp only [taken, h]

theorem taken_cons_of_error
    (h : e.offer s r = (s', .error fault)) (rs : List ρ) :
    e.taken s (r :: rs) = e.taken s' rs := by
  simp only [taken, h]

theorem endAfter_cons (e : Engine σ ρ α) (s : σ) (r : ρ) (rs : List ρ) :
    e.endAfter s (r :: rs) = e.endAfter (e.offer s r).1 rs := by
  simp only [endAfter, feedThrough]
  cases h : e.offer s r with
  | mk s' answer => cases answer <;> rfl

/-- A run with success takes all rows. -/
theorem taken_of_run
    {rows : List ρ} {actions : List α} (h : (e.run s rows).2 = .ok actions) :
    e.taken s rows = rows := by
  induction rows generalizing s actions with
  | nil => rfl
  | cons r rs ih =>
      cases step : e.offer s r with
      | mk s' answer =>
          cases answer with
          | error fault =>
              rw [run_cons_of_error step] at h
              cases h
          | ok first =>
              rw [run_cons_of_ok step] at h
              obtain ⟨rest, hrest, -⟩ := Success.of_map h
              rw [taken_cons_of_ok step, ih hrest]

end Steps

/--
A refused row leaves no trace in what `view` shows of a state, and what it does
not show has no influence on the engine.
-/
structure Traceless (e : Engine σ ρ α) (view : σ → ν) : Prop where
  refused : ∀ s r fault, (e.offer s r).2 = .error fault →
    view (e.offer s r).1 = view s
  offer : ∀ s t r, view s = view t →
    view (e.offer s r).1 = view (e.offer t r).1 ∧
      (e.offer s r).2 = (e.offer t r).2
  finish : ∀ s t, view s = view t →
    view (e.finish s).1 = view (e.finish t).1 ∧
      (e.finish s).2 = (e.finish t).2

namespace Traceless

variable {e : Engine σ ρ α} {view : σ → ν} {s s' t : σ} {r : ρ}

/-- States that look the same take the same rows. -/
theorem offer_of_ok
    (h : e.Traceless view) (hst : view s = view t) {first : List α}
    (step : e.offer s r = (s', .ok first)) :
    ∃ t', e.offer t r = (t', .ok first) ∧ view s' = view t' := by
  obtain ⟨hview, hanswer⟩ := h.offer s t r hst
  rw [step] at hview hanswer
  exact ⟨(e.offer t r).1, Prod.ext rfl hanswer.symm, hview⟩

theorem view_of_error
    (h : e.Traceless view) (hst : view s = view t) {fault : Fault}
    (step : e.offer s r = (s', .error fault)) :
    view s' = view t := by
  have hrefused := h.refused s r fault (by rw [step])
  rw [step] at hrefused
  exact hrefused.trans hst

/-- The rows that are taken are answered as they are among all rows. -/
theorem answers_taken
    (h : e.Traceless view) (hst : view s = view t) (rows : List ρ) :
    e.answers t (e.taken s rows) = (e.answers s rows).filter Except.isOk := by
  induction rows generalizing s t with
  | nil => rfl
  | cons r rs ih =>
      cases step : e.offer s r with
      | mk s' answer =>
          cases answer with
          | error fault =>
              rw [taken_cons_of_error step, ih (h.view_of_error hst step)]
              rw [answers, step]
              rfl
          | ok first =>
              obtain ⟨t', step', hview⟩ := h.offer_of_ok hst step
              rw [taken_cons_of_ok step, answers, step', ih hview, answers,
                step]
              rfl

/-- The rows that are taken end as all rows do. -/
theorem endAfter_taken
    (h : e.Traceless view) (hst : view s = view t) (rows : List ρ) :
    view (e.endAfter t (e.taken s rows)).1 = view (e.endAfter s rows).1 ∧
      (e.endAfter t (e.taken s rows)).2 = (e.endAfter s rows).2 := by
  induction rows generalizing s t with
  | nil => exact h.finish t s hst.symm
  | cons r rs ih =>
      cases step : e.offer s r with
      | mk s' answer =>
          cases answer with
          | error fault =>
              rw [taken_cons_of_error step, endAfter_cons e s, step]
              exact ih (h.view_of_error hst step)
          | ok first =>
              obtain ⟨t', step', hview⟩ := h.offer_of_ok hst step
              rw [taken_cons_of_ok step, endAfter_cons, endAfter_cons, step,
                step']
              exact ih hview

/-- A run over the rows that are taken is not refused, and gives what all rows give. -/
theorem run_taken
    (h : e.Traceless view) (hst : view s = view t) (rows : List ρ) :
    (e.run t (e.taken s rows)).2 = .ok (e.runThrough s rows) := by
  induction rows generalizing s t with
  | nil =>
      rw [taken, run_nil]
      exact congrArg Except.ok (h.finish t s hst.symm).2
  | cons r rs ih =>
      cases step : e.offer s r with
      | mk s' answer =>
          cases answer with
          | error fault =>
              rw [taken_cons_of_error step, runThrough_cons_of_error step,
                ih (h.view_of_error hst step)]
          | ok first =>
              obtain ⟨t', step', hview⟩ := h.offer_of_ok hst step
              rw [taken_cons_of_ok step, run_cons_of_ok step', ih hview,
                runThrough_cons_of_ok step]
              rfl

end Traceless

section Guarded

variable {κ : Type} [SortKey κ]

/--
The rows that come before the last one taken are refused, with a fault that is
told from the rows taken so far, from the last of them and from the row.
`Seen rows s` tells that `s` is a state in which the rows have been taken.
-/
structure GuardsOrder (e : Engine σ ρ α) (start : σ) (key : ρ → κ)
    (fault : List ρ → ρ → ρ → Fault) (Seen : List ρ → σ → Prop) : Prop where
  start : Seen [] start
  inOrder : ∀ rows s, Seen rows s → InOrder key rows
  taken : ∀ rows s r first, Seen rows s → (e.offer s r).2 = .ok first →
    Seen (rows ++ [r]) (e.offer s r).1
  refused : ∀ rows s r f, Seen rows s → (e.offer s r).2 = .error f →
    Seen rows (e.offer s r).1
  refused_iff : ∀ rows s r f, Seen rows s →
    ((e.offer s r).2 = .error f ↔
      ∃ last ∈ rows.getLast?, compare (key r) (key last) = .lt ∧
        f = fault rows last r)

/--
A row is refused exactly if it comes before the last one taken, and the answers
to the rows taken, what is given at the end, and what `view` shows of the last
state are as if the rows refused had not been offered.
-/
structure RefusesUnsorted (e : Engine σ ρ α) (start : σ) (key : ρ → κ)
    (fault : List ρ → ρ → ρ → Fault) (view : σ → ν) : Prop where
  refused_iff : ∀ before r f,
    (e.offer (e.feedThrough start before).1 r).2 = .error f ↔
      ∃ last ∈ (e.taken start before).getLast?,
        compare (key r) (key last) = .lt ∧
          f = fault (e.taken start before) last r
  answers : ∀ rows,
    e.answers start (e.taken start rows) =
      (e.answers start rows).filter Except.isOk
  run : ∀ rows,
    (e.run start (e.taken start rows)).2 = .ok (e.runThrough start rows)
  finish : ∀ rows,
    (e.endAfter start (e.taken start rows)).2 = (e.endAfter start rows).2
  counts : ∀ rows,
    view (e.endAfter start (e.taken start rows)).1 =
      view (e.endAfter start rows).1

namespace GuardsOrder

variable {e : Engine σ ρ α} {start : σ} {key : ρ → κ}
variable {fault : List ρ → ρ → ρ → Fault} {Seen : List ρ → σ → Prop}

/-- After rows of which some may have been refused, those that are taken have been seen. -/
theorem feedThrough
    (h : e.GuardsOrder start key fault Seen) {before : List ρ} {s : σ}
    (hs : Seen before s) (rows : List ρ) :
    Seen (before ++ e.taken s rows) (e.feedThrough s rows).1 := by
  induction rows generalizing before s with
  | nil => simpa [Engine.taken, Engine.feedThrough] using hs
  | cons r rs ih =>
      cases step : e.offer s r with
      | mk s' answer =>
          cases answer with
          | error f =>
              have hseen := h.refused before s r f hs (by rw [step])
              rw [step] at hseen
              rw [taken_cons_of_error step]
              simpa only [Engine.feedThrough, step] using ih hseen
          | ok first =>
              have hseen := h.taken before s r first hs (by rw [step])
              rw [step] at hseen
              rw [taken_cons_of_ok step, List.append_cons]
              simpa only [Engine.feedThrough, step] using ih hseen

theorem seen_taken
    (h : e.GuardsOrder start key fault Seen) (rows : List ρ) :
    Seen (e.taken start rows) (e.feedThrough start rows).1 :=
  h.feedThrough h.start rows

/-- The rows of a run with success are in order. -/
theorem inOrder_of_run
    (h : e.GuardsOrder start key fault Seen) {rows : List ρ}
    {actions : List α} (hrun : (e.run start rows).2 = .ok actions) :
    InOrder key rows := by
  have hseen := h.inOrder _ _ (h.seen_taken rows)
  rwa [taken_of_run hrun] at hseen

theorem refusesUnsorted
    (h : e.GuardsOrder start key fault Seen) {view : σ → ν}
    (traceless : e.Traceless view) :
    e.RefusesUnsorted start key fault view where
  refused_iff before r f := h.refused_iff _ _ r f (h.seen_taken before)
  answers rows := traceless.answers_taken rfl rows
  run rows := traceless.run_taken rfl rows
  finish rows := (traceless.endAfter_taken rfl rows).2
  counts rows := (traceless.endAfter_taken rfl rows).1

end GuardsOrder

end Guarded

end Engine

namespace Grouping

section Guard

variable {ρ κ γ χ α : Type} [Counters χ]

theorem guard_addRow (p : Grouping ρ κ γ χ α) (s : Groups κ γ χ) (r : ρ) :
    (p.addRow s r).guard = s.guard := by
  unfold addRow
  split <;> rfl

theorem guard_closeCurrent (p : Grouping ρ κ γ χ α) (s : Groups κ γ χ) :
    (p.closeCurrent s).1.guard = s.guard := by
  unfold closeCurrent
  split <;> rfl

theorem guard_enter
    (p : Grouping ρ κ γ χ α) (s : Groups κ γ χ) (name : String) :
    (p.enter s name).1.guard = s.guard := by
  unfold enter
  split
  · split
    · rfl
    · exact guard_closeCurrent p s
  · exact guard_closeCurrent p s

end Guard

section Order

variable {ρ κ γ χ α : Type} [SortKey κ] [Counters χ]

section Step

variable {p : Grouping ρ κ γ χ α} {s : Groups κ γ χ} {r : ρ}

theorem offer_eq_error_iff_accept {fault : Fault} :
    (p.offer s r).2 = .error fault ↔
      s.guard.accept (p.key r) = .error fault := by
  unfold offer
  cases s.guard.accept (p.key r) with
  | error f => simp
  | ok guard => simp

/-- The guard lets the key of a row through that is taken. -/
theorem accept_of_offer {actions : List α}
    (h : (p.offer s r).2 = .ok actions) :
    s.guard.accept (p.key r) = .ok (p.offer s r).1.guard := by
  unfold offer at h ⊢
  cases haccept : s.guard.accept (p.key r) with
  | error f => simp [haccept] at h
  | ok guard =>
      simp only [take, guard_addRow, guard_enter]

end Step

/-- The engine of a grouping guards the order of its rows. -/
theorem guardsOrder [Std.TransOrd κ] (p : Grouping ρ κ γ χ α) :
    p.engine.GuardsOrder .start p.key (fun _ => Guard.refusal p.key)
      fun rows s => s.guard.Seen p.key rows where
  start := Guard.seen_start
  inOrder _ _ hs := hs.inOrder
  taken _ _ _ _ hs h := hs.accept (accept_of_offer h)
  refused rows s r f hs h := by
    rw [show (p.engine.offer s r).1 = s from offer_of_error h]
    exact hs
  refused_iff _ _ _ _ hs :=
    offer_eq_error_iff_accept.trans hs.accept_eq_error_iff

theorem refusesFatally (p : Grouping ρ κ γ χ α) :
    p.engine.RefusesFatally := by
  intro s r fault h
  obtain ⟨_, -, -, rfl⟩ :=
    Guard.accept_eq_error_iff.1 (offer_eq_error_iff_accept.1 h)
  rfl

/-- A refused row leaves the whole state of the engine as it was. -/
theorem traceless (p : Grouping ρ κ γ χ α) :
    p.engine.Traceless fun s => s where
  refused _ _ _ h := offer_of_error h
  offer _ _ _ h := by rw [h]; exact ⟨rfl, rfl⟩
  finish _ _ h := by rw [h]; exact ⟨rfl, rfl⟩

end Order

end Grouping

end Stream
end Reclaim
