import Reclaim.Proofs.Success
import Reclaim.Stream.Groups

/-!
# Runs that pass over refused rows

What an engine gives for all rows it does not refuse, and what holds of it: an
engine upholds a property if every step keeps an invariant of the state and
gives only actions with the property.  For an engine that works in groups it is
enough to look at what is kept of a group.

Main results: `Engine.Upholds.runThrough` and `Grouping.Upholds.engine`.
-/

namespace Reclaim
namespace Stream

namespace Engine

variable {σ ρ α : Type}

/-- What an engine gives for all rows that it does not refuse. -/
def runThrough (e : Engine σ ρ α) (s : σ) (rows : List ρ) : List α :=
  (e.feedThrough s rows).2 ++ (e.finish (e.feedThrough s rows).1).2

theorem runThrough_cons_of_ok
    {e : Engine σ ρ α} {s s' : σ} {r : ρ} {first : List α}
    (h : e.offer s r = (s', .ok first)) (rs : List ρ) :
    e.runThrough s (r :: rs) = first ++ e.runThrough s' rs := by
  simp only [runThrough, feedThrough, h, List.append_assoc]

theorem runThrough_cons_of_error
    {e : Engine σ ρ α} {s s' : σ} {r : ρ} {fault : Fault}
    (h : e.offer s r = (s', .error fault)) (rs : List ρ) :
    e.runThrough s (r :: rs) = e.runThrough s' rs := by
  simp only [runThrough, feedThrough, h]

/-- Steps keep an invariant and give only actions with a property. -/
structure Upholds (e : Engine σ ρ α) (Inv : σ → Prop) (Fine : ρ → Prop)
    (Right : α → Prop) : Prop where
  offer : ∀ s r, Inv s → Fine r → Inv (e.offer s r).1
  answer : ∀ s r actions, Inv s → Fine r → (e.offer s r).2 = .ok actions →
    ∀ a ∈ actions, Right a
  finish : ∀ s, Inv s → ∀ a ∈ (e.finish s).2, Right a

/-- A run upholds what every step upholds. -/
theorem Upholds.runThrough
    {e : Engine σ ρ α} {Inv : σ → Prop} {Fine : ρ → Prop} {Right : α → Prop}
    (h : e.Upholds Inv Fine Right) {s : σ} {rows : List ρ} (hs : Inv s)
    (fine : ∀ r ∈ rows, Fine r) :
    ∀ a ∈ e.runThrough s rows, Right a := by
  induction rows generalizing s with
  | nil => exact h.finish s hs
  | cons r rs ih =>
      obtain ⟨fineR, fineRs⟩ := List.forall_mem_cons.1 fine
      have next := h.offer s r hs fineR
      cases step : e.offer s r with
      | mk s' answer =>
          rw [step] at next
          cases answer with
          | error fault =>
              rw [runThrough_cons_of_error step]
              exact ih next fineRs
          | ok first =>
              rw [runThrough_cons_of_ok step]
              have right := h.answer s r first hs fineR (by rw [step])
              exact List.forall_mem_append.2 ⟨right, ih next fineRs⟩

/-- What is made of each action upholds what follows for it. -/
theorem Upholds.thenEach
    {β : Type} {e : Engine σ ρ α} {f : α → List β} {Inv : σ → Prop}
    {Fine : ρ → Prop} {Right : α → Prop} {Made : β → Prop}
    (h : e.Upholds Inv Fine Right)
    (each : ∀ a, Right a → ∀ b ∈ f a, Made b) :
    (e.thenEach f).Upholds Inv Fine Made where
  offer s r hs fine := h.offer s r hs fine
  answer s r actions hs fine answered := by
    obtain ⟨first, hfirst, rfl⟩ := Success.of_map answered
    intro b hb
    obtain ⟨a, ha, hb⟩ := List.mem_flatMap.1 hb
    exact each a (h.answer s r first hs fine hfirst a ha) b hb
  finish s hs := by
    intro b hb
    obtain ⟨a, ha, hb⟩ := List.mem_flatMap.1 hb
    exact each a (h.finish s hs a ha) b hb

end Engine

namespace Grouping

variable {ρ κ γ χ α : Type}

/-- What is kept of a group and what comes of it have the properties. -/
structure Upholds (p : Grouping ρ κ γ χ α) (Fine : ρ → Prop)
    (Named : String → Prop) (Kept : γ → Prop) (Right : α → Prop) : Prop where
  group : ∀ r, Fine r → Named (p.group r)
  empty : Kept p.empty
  add : ∀ kept r, Kept kept → Fine r → Kept (p.add kept r).1
  close : ∀ name kept, Named name → Kept kept →
    ∀ a ∈ (p.close name kept).1, Right a

/-- The group that is open has the properties. -/
def Holding (Named : String → Prop) (Kept : γ → Prop) (s : Groups κ γ χ) :
    Prop :=
  ∀ g ∈ s.current, Named g.1 ∧ Kept g.2

namespace Upholds

variable [Counters χ] {p : Grouping ρ κ γ χ α}
variable {Fine : ρ → Prop} {Named : String → Prop} {Kept : γ → Prop}
variable {Right : α → Prop}

theorem closeCurrent
    (h : p.Upholds Fine Named Kept Right) {s : Groups κ γ χ}
    (hs : Holding Named Kept s) :
    (p.closeCurrent s).1.current = none ∧
      ∀ a ∈ (p.closeCurrent s).2, Right a := by
  rw [Grouping.closeCurrent]
  split
  · next hc => exact ⟨hc, nofun⟩
  · next name kept hc =>
      obtain ⟨named, fine⟩ := hs _ hc
      exact ⟨rfl, h.close name kept named fine⟩

theorem enter
    (h : p.Upholds Fine Named Kept Right) {s : Groups κ γ χ} {name : String}
    (hs : Holding Named Kept s) (named : Named name) :
    Holding Named Kept (p.enter s name).1 ∧
      ∀ a ∈ (p.enter s name).2, Right a := by
  obtain ⟨-, right⟩ := h.closeCurrent hs
  have opened : Holding Named Kept (p.openGroup s name).1 := by
    rintro g ⟨⟩
    exact ⟨named, h.empty⟩
  rw [Grouping.enter]
  split
  · split
    · exact ⟨hs, nofun⟩
    · exact ⟨opened, right⟩
  · exact ⟨opened, right⟩

theorem addRow
    (h : p.Upholds Fine Named Kept Right) {s : Groups κ γ χ} {r : ρ}
    (hs : Holding Named Kept s) (fine : Fine r) :
    Holding Named Kept (p.addRow s r) := by
  rw [Grouping.addRow]
  split
  · next name kept hc =>
      obtain ⟨named, hk⟩ := hs _ hc
      rintro g ⟨⟩
      exact ⟨named, h.add kept r hk fine⟩
  · exact hs

theorem take
    (h : p.Upholds Fine Named Kept Right) {s : Groups κ γ χ} {r : ρ}
    (guard : Guard κ) (hs : Holding Named Kept s) (fine : Fine r) :
    Holding Named Kept (p.take s guard r).1 ∧
      ∀ a ∈ (p.take s guard r).2, Right a := by
  have counted : Holding Named Kept
      { s with guard := guard, rows := s.rows + 1 } := hs
  obtain ⟨entered, right⟩ := h.enter counted (h.group r fine)
  exact ⟨h.addRow entered fine, right⟩

/-- The engine upholds what the grouping upholds. -/
theorem engine [SortKey κ] (h : p.Upholds Fine Named Kept Right) :
    p.engine.Upholds (Holding Named Kept) Fine Right where
  offer s r hs fine := by
    simp only [Grouping.engine, Grouping.offer]
    split
    · exact hs
    · next guard _ => exact (h.take guard hs fine).1
  answer s r actions hs fine answered := by
    simp only [Grouping.engine, Grouping.offer] at answered
    split at answered
    · cases answered
    · next guard _ =>
        obtain rfl := Except.ok.inj answered
        exact (h.take guard hs fine).2
  finish s hs := (h.closeCurrent hs).2

theorem holding_start :
    Holding Named Kept (Groups.start (χ := χ) (κ := κ) (γ := γ)) :=
  nofun

end Upholds
end Grouping
end Stream
end Reclaim
