import Reclaim.Stream.Engine
import Reclaim.Stream.Guard

/-!
# Engines that work in groups

Many engines work on sorted rows in groups: the rows of one object follow each
other, and what is to be done about the object is decided when its group
closes.  A `Grouping` says what is kept of the rows of a group and what comes of
it in the end; the engine built from it guards the order of the rows and finds
the groups.  A row that is refused changes nothing.

Main results: `offer_eq_error_iff` says which rows are refused, and
`offer_of_error` that a refused row leaves no trace.
-/

namespace Reclaim
namespace Stream

/-- How the rows of a group are worked off; `χ` counts what happens. -/
structure Grouping (ρ κ γ χ α : Type) where
  /-- The position of a row in the sorted stream. -/
  key : ρ → κ
  /-- The group of a row. -/
  group : ρ → String
  /-- What is kept of a group without rows. -/
  empty : γ
  /-- Takes a row into its group. -/
  add : γ → ρ → γ × χ
  /-- Decides about a group. -/
  close : String → γ → List α × χ

/-- Counters that can be added up. -/
class Counters (χ : Type) where
  zero : χ
  add : χ → χ → χ

/-- The group that is open, and what has happened so far. -/
structure Groups (κ γ χ : Type) where
  guard : Guard κ
  current : Option (String × γ)
  rows : Nat
  groups : Nat
  counts : χ

namespace Groups

variable {κ γ χ : Type}

/-- No row has been seen. -/
def start [Counters χ] : Groups κ γ χ :=
  ⟨Guard.start, none, 0, 0, Counters.zero⟩

end Groups

namespace Grouping

variable {ρ κ γ χ α : Type} [SortKey κ] [Counters χ]

/-- Closes the group that is open. -/
def closeCurrent (p : Grouping ρ κ γ χ α) (s : Groups κ γ χ) :
    Groups κ γ χ × List α :=
  match s.current with
  | none => (s, [])
  | some (name, kept) =>
      let (actions, counts) := p.close name kept
      ({ s with current := none, counts := Counters.add s.counts counts },
        actions)

/-- Opens a group after closing the one before it. -/
def openGroup (p : Grouping ρ κ γ χ α) (s : Groups κ γ χ) (name : String) :
    Groups κ γ χ × List α :=
  let (s, actions) := p.closeCurrent s
  ({ s with current := some (name, p.empty), groups := s.groups + 1 }, actions)

/-- Goes on with the group that is open, or opens another one. -/
def enter (p : Grouping ρ κ γ χ α) (s : Groups κ γ χ) (name : String) :
    Groups κ γ χ × List α :=
  match s.current with
  | some (current, _) =>
      if current = name then (s, []) else p.openGroup s name
  | none => p.openGroup s name

/-- Takes a row into the group that is open. -/
def addRow (p : Grouping ρ κ γ χ α) (s : Groups κ γ χ) (row : ρ) :
    Groups κ γ χ :=
  match s.current with
  | some (name, kept) =>
      let (kept, counts) := p.add kept row
      { s with
        current := some (name, kept)
        counts := Counters.add s.counts counts }
  | none => s

/-- Takes a row that the guard has let through. -/
def take (p : Grouping ρ κ γ χ α) (s : Groups κ γ χ) (guard : Guard κ)
    (row : ρ) : Groups κ γ χ × List α :=
  let (s, actions) :=
    p.enter { s with guard := guard, rows := s.rows + 1 } (p.group row)
  (p.addRow s row, actions)

/-- Takes a row unless it comes before the last one. -/
def offer (p : Grouping ρ κ γ χ α) (s : Groups κ γ χ) (row : ρ) :
    Groups κ γ χ × Except Fault (List α) :=
  match s.guard.accept (p.key row) with
  | .error fault => (s, .error fault)
  | .ok guard =>
      let (s, actions) := p.take s guard row
      (s, .ok actions)

/-- The engine that works in these groups. -/
def engine (p : Grouping ρ κ γ χ α) : Engine (Groups κ γ χ) ρ α :=
  ⟨p.offer, p.closeCurrent⟩

/-- A row is refused exactly if it comes before the last one. -/
theorem offer_eq_error_iff
    (p : Grouping ρ κ γ χ α) (s : Groups κ γ χ) (row : ρ) :
    (∃ fault, (p.offer s row).2 = .error fault) ↔
      ∃ previous ∈ s.guard.last, compare (p.key row) previous = .lt := by
  simp only [offer, Guard.accept]
  cases s.guard.last with
  | none => simp
  | some previous =>
      by_cases h : compare (p.key row) previous = .lt <;> simp [h]

/-- A row that is refused leaves no trace. -/
theorem offer_of_error
    {p : Grouping ρ κ γ χ α} {s : Groups κ γ χ} {row : ρ} {fault : Fault}
    (h : (p.offer s row).2 = .error fault) :
    (p.offer s row).1 = s := by
  simp only [offer] at h ⊢
  split
  · rfl
  · next hg =>
      rw [hg] at h
      simp at h

end Grouping
end Stream
end Reclaim
