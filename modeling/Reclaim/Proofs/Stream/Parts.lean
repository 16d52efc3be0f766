import Mathlib.Data.List.Basic
import Reclaim.Proofs.Stream.Run

/-!
# Parts of a stream

The rows of some names are a part of a stream.  Since an engine that works
groupwise decides about each name on its own, what it makes of a part is what it
makes of the whole stream, as far as it is owned by names of the part.

Main results: `names_filter` and `Engine.Groupwise.run_filter`.
-/

namespace Reclaim
namespace Stream

section Names

variable {ρ β : Type} [DecidableEq β] {name : ρ → β}

/-- The names of the rows of some names are those among the names of all rows. -/
theorem names_filter (p : β → Bool) (rows : List ρ) :
    names name (rows.filter fun r => p (name r)) =
      (names name rows).filter p := by
  match rows with
  | [] => rfl
  | r :: rs =>
      have hlen : (rowsExcept name (name r) rs).length ≤ rs.length :=
        List.length_filter_le _ _
      have ih := names_filter p (rowsExcept name (name r) rs)
      by_cases hp : p (name r)
      · have hcomm : rowsExcept name (name r)
            (rs.filter fun r => p (name r)) =
              (rowsExcept name (name r) rs).filter fun r => p (name r) := by
          simp only [rowsExcept, List.filter_filter, Bool.and_comm]
        rw [List.filter_cons_of_pos (by exact hp), names_cons, names_cons,
          List.filter_cons_of_pos hp, hcomm, ih]
      · -- Without the first row, its name does not come up again.
        have hsame : (rowsExcept name (name r) rs).filter
            (fun r => p (name r)) = rs.filter fun r => p (name r) := by
          rw [rowsExcept, List.filter_filter]
          apply List.filter_congr
          intro x _
          by_cases hx : name x = name r
          · simp [hx, hp]
          · simp [hx]
        rw [List.filter_cons_of_neg (by exact hp), names_cons,
          List.filter_cons_of_neg hp, ← hsame, ih]
termination_by rows.length
decreasing_by
  simp only [List.length_cons]
  omega

theorem rowsOf_filter
    {p : β → Bool} {b : β} (hp : p b) (rows : List ρ) :
    rowsOf name b (rows.filter fun r => p (name r)) = rowsOf name b rows := by
  rw [rowsOf, rowsOf, List.filter_filter]
  apply List.filter_congr
  intro x _
  by_cases hx : name x = b
  · simp [hx, hp]
  · simp [hx]

end Names

namespace Engine

theorem offer_thenEach_of_ok
    {σ ρ α γ : Type} {e : Engine σ ρ α} {s s' : σ} {r : ρ} {actions : List α}
    (h : e.offer s r = (s', .ok actions)) (f : α → List γ) :
    (e.thenEach f).offer s r = (s', .ok (actions.flatMap f)) := by
  simp only [thenEach, h, Except.map]

namespace Groupwise

variable {σ ρ α β κ : Type} [SortKey κ]
variable {e : Engine σ ρ α} {start : σ} {key : ρ → κ} {name : ρ → β}
variable {decide : β → List ρ → List α} {After : ρ → List ρ → σ → Prop}

/-- An engine works groupwise if something is made of each of its actions. -/
theorem thenEach
    (hg : Groupwise e start key name decide After)
    {γ : Type} (f : α → List γ) :
    Groupwise (e.thenEach f) start key name
      (fun b rows => (decide b rows).flatMap f) After where
  finish_start := congrArg (List.flatMap f) hg.finish_start
  offer_start r := by
    obtain ⟨s', hoffer, hs'⟩ := hg.offer_start r
    exact ⟨s', offer_thenEach_of_ok hoffer f, hs'⟩
  offer_same last rows s r hs hle hname := by
    obtain ⟨s', hoffer, hs'⟩ := hg.offer_same last rows s r hs hle hname
    exact ⟨s', offer_thenEach_of_ok hoffer f, hs'⟩
  offer_other last rows s r hs hle hname := by
    obtain ⟨s', hoffer, hs'⟩ := hg.offer_other last rows s r hs hle hname
    exact ⟨s', offer_thenEach_of_ok hoffer f, hs'⟩
  finish_after last rows s hs :=
    congrArg (List.flatMap f) (hg.finish_after last rows s hs)

variable [SortKey β] [DecidableEq β]
variable [Std.TransOrd κ] [Std.TransOrd β] [Std.LawfulEqOrd β]

/-- A run over the rows of some names gives what the whole run gives for them. -/
theorem run_filter
    (hg : Groupwise e start key name decide After)
    (hn : NamesFollow key name) {rows : List ρ} (h : InOrder key rows)
    {owner : α → β}
    (ho : ∀ b, ∀ a ∈ decide b (rowsOf name b rows), owner a = b)
    {actions : List α} (hrun : (e.run start rows).2 = .ok actions)
    (p : β → Bool) :
    (e.run start (rows.filter fun r => p (name r))).2 =
      .ok (actions.filter fun a => p (owner a)) := by
  have hpart : InOrder key (rows.filter fun r => p (name r)) :=
    List.Pairwise.filter _ h
  rw [hg.run_eq_names hn h] at hrun
  obtain rfl := Except.ok.inj hrun
  rw [hg.run_eq_names hn hpart, names_filter, filter_flatMap_owner ho]
  congr 1
  apply List.flatMap_congr
  intro b hb
  rw [rowsOf_filter (List.mem_filter.1 hb).2]

end Groupwise
end Engine

end Stream
end Reclaim
