import Reclaim.Fault
import Reclaim.Stream.Key

/-!
# Guarding the order of a stream

Engines rely on sorted input and check it.  A guard remembers the last key it
let through, and stops a key that comes before it.  A key that is stopped
leaves the guard as it was.

Main result: `accept_eq_ok_iff` says which keys a guard lets through.
-/

namespace Reclaim
namespace Stream

variable {κ : Type} [SortKey κ]

/-- The last key that was let through. -/
structure Guard (κ : Type) where
  last : Option κ

namespace Guard

/-- A guard that has seen no key. -/
def start : Guard κ := ⟨none⟩

/-- Lets a key through unless it comes before the last one. -/
def accept (g : Guard κ) (key : κ) : Except Fault (Guard κ) :=
  match g.last with
  | some previous =>
      if compare key previous = .lt then
        .error (.outOfOrder (shown key) (shown previous))
      else
        .ok ⟨some key⟩
  | none => .ok ⟨some key⟩

/-- A guard lets through exactly the keys that are not before its last one. -/
theorem accept_eq_ok_iff
    {g g' : Guard κ} {key : κ} :
    g.accept key = .ok g' ↔
      g' = ⟨some key⟩ ∧ ∀ previous ∈ g.last, compare key previous ≠ .lt := by
  obtain ⟨last⟩ := g
  cases last with
  | none => simp [accept, eq_comm]
  | some previous =>
      by_cases h : compare key previous = .lt
      · simp [accept, h]
      · simp only [accept, h, if_false, Except.ok.injEq]
        constructor
        · rintro rfl
          simp [h]
        · rintro ⟨rfl, _⟩
          rfl

end Guard
end Stream
end Reclaim
