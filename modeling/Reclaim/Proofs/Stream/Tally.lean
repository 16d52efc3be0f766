import Reclaim.Proofs.Stream.Run
import Reclaim.Proofs.Success

/-!
# Counters and what has been given

The callers of an engine offer rows and end the stream in whatever order they
like: they go on after a fault, and the stream may end several times.  A counter
tallies if every call adds to it the size of what the call gives, so that at any
time it tells the size of all that has been given.  For an engine that works in
groups it is enough to look at what comes of a group.

Main results: `Tallies.after` for any calls, `after_of_run` for the calls of a
run, and `Grouping.Tallies.engine`.
-/

namespace Reclaim
namespace Stream

/-- A call of an engine. -/
inductive Call (ρ : Type)
  | offer (row : ρ)
  | finish

/-- The actions that an answer gives; a fault gives none. -/
def given {α : Type} : Except Fault (List α) → List α
  | .ok actions => actions
  | .error _ => []

/-- A size of lists that adds up. -/
structure Additive {α : Type} (size : List α → Nat) : Prop where
  nil : size [] = 0
  append : ∀ xs ys, size (xs ++ ys) = size xs + size ys

theorem additive_length {α : Type} : Additive (List.length (α := α)) :=
  ⟨rfl, fun _ _ => List.length_append⟩

theorem additive_countP {α : Type} (p : α → Bool) : Additive (List.countP p) :=
  ⟨rfl, fun _ _ => List.countP_append⟩

theorem additive_flatMap {α β : Type} (parts : α → List β) :
    Additive fun xs => (xs.flatMap parts).length :=
  ⟨rfl, fun _ _ => by rw [List.flatMap_append, List.length_append]⟩

namespace Engine

section Calls

variable {σ ρ α : Type}

/-- The state after a call, and the answer to it. -/
def call (e : Engine σ ρ α) (s : σ) : Call ρ → σ × Except Fault (List α)
  | .offer r => e.offer s r
  | .finish => ((e.finish s).1, .ok (e.finish s).2)

/-- The state after calls, and the answers to them. -/
def history (e : Engine σ ρ α) (s : σ) :
    List (Call ρ) → σ × List (Except Fault (List α))
  | [] => (s, [])
  | c :: cs =>
      let (s, answer) := e.call s c
      let (s, rest) := e.history s cs
      (s, answer :: rest)

/-- The state after calls. -/
def after (e : Engine σ ρ α) (s : σ) (calls : List (Call ρ)) : σ :=
  (e.history s calls).1

/-- The actions that calls have given. -/
def emitted (e : Engine σ ρ α) (s : σ) (calls : List (Call ρ)) : List α :=
  (e.history s calls).2.flatMap given

variable {e : Engine σ ρ α} {s : σ} {calls : List (Call ρ)}

theorem after_cons (c : Call ρ) (cs : List (Call ρ)) :
    e.after s (c :: cs) = e.after (e.call s c).1 cs := rfl

theorem emitted_cons (c : Call ρ) (cs : List (Call ρ)) :
    e.emitted s (c :: cs) =
      given (e.call s c).2 ++ e.emitted (e.call s c).1 cs := rfl

/-- What every call keeps holds after any calls. -/
theorem after_induction (Inv : σ → Prop) (step : ∀ s c, Inv s → Inv (e.call s c).1)
    (h : Inv s) (calls : List (Call ρ)) : Inv (e.after s calls) := by
  induction calls generalizing s with
  | nil => exact h
  | cons c cs ih => exact ih (step s c h)

/-- Every call adds to a counter the size of what it gives. -/
structure Tallies (e : Engine σ ρ α) (counter : σ → Nat) (size : List α → Nat) :
    Prop where
  additive : Additive size
  offer : ∀ s r, counter (e.offer s r).1 = counter s + size (given (e.offer s r).2)
  finish : ∀ s, counter (e.finish s).1 = counter s + size (e.finish s).2

variable {counter : σ → Nat} {size : List α → Nat}

theorem Tallies.call (h : e.Tallies counter size) (s : σ) (c : Call ρ) :
    counter (e.call s c).1 = counter s + size (given (e.call s c).2) := by
  cases c with
  | offer r => exact h.offer s r
  | finish => exact h.finish s

/-- After any calls, a counter tells the size of what has been given. -/
theorem Tallies.after (h : e.Tallies counter size) (s : σ) (calls : List (Call ρ)) :
    counter (e.after s calls) = counter s + size (e.emitted s calls) := by
  induction calls generalizing s with
  | nil => exact (congrArg (counter s + ·) h.additive.nil).symm
  | cons c cs ih =>
      rw [after_cons, emitted_cons, ih, h.call, h.additive.append, Nat.add_assoc]

/-- A run without a refusal offers all rows and ends the stream once. -/
theorem after_of_run {rows : List ρ} {actions : List α}
    (h : (e.run s rows).2 = .ok actions) :
    e.after s (rows.map .offer ++ [.finish]) = (e.run s rows).1 ∧
      e.emitted s (rows.map .offer ++ [.finish]) = actions := by
  induction rows generalizing s actions with
  | nil => exact ⟨rfl, (List.append_nil _).trans (Except.ok.inj h)⟩
  | cons r rs ih =>
      cases hoffer : e.offer s r with
      | mk s' answer =>
          cases answer with
          | error fault =>
              rw [run_cons_of_error hoffer] at h
              cases h
          | ok first =>
              have hcall : e.call s (.offer r) = (s', .ok first) := hoffer
              rw [run_cons_of_ok hoffer] at h ⊢
              obtain ⟨rest, hrest, rfl⟩ := Success.of_map h
              obtain ⟨hafter, hemitted⟩ := ih hrest
              rw [List.map_cons, List.cons_append, after_cons, emitted_cons, hcall]
              exact ⟨hafter, congrArg (first ++ ·) hemitted⟩

end Calls

end Engine

namespace Grouping

variable {ρ κ γ χ α : Type} [Counters χ]

/-- A counter grows by the size of what comes of a group, and by nothing else. -/
structure Tallies (p : Grouping ρ κ γ χ α) (counter : χ → Nat)
    (size : List α → Nat) : Prop where
  additive : Additive size
  sum : ∀ a b : χ, counter (Counters.add a b) = counter a + counter b
  add : ∀ kept r, counter (p.add kept r).2 = 0
  close : ∀ name kept, counter (p.close name kept).2 = size (p.close name kept).1

namespace Tallies

variable {p : Grouping ρ κ γ χ α} {counter : χ → Nat} {size : List α → Nat}

theorem closeCurrent (h : p.Tallies counter size) (s : Groups κ γ χ) :
    counter (p.closeCurrent s).1.counts =
      counter s.counts + size (p.closeCurrent s).2 := by
  unfold Grouping.closeCurrent
  cases s.current with
  | none => exact (congrArg (counter s.counts + ·) h.additive.nil).symm
  | some group => exact (h.sum _ _).trans (congrArg _ (h.close group.1 group.2))

theorem enter (h : p.Tallies counter size) (s : Groups κ γ χ) (name : String) :
    counter (p.enter s name).1.counts = counter s.counts + size (p.enter s name).2 := by
  have hopen : counter (p.openGroup s name).1.counts =
      counter s.counts + size (p.openGroup s name).2 := h.closeCurrent s
  unfold Grouping.enter
  split
  · split
    · exact (congrArg (counter s.counts + ·) h.additive.nil).symm
    · exact hopen
  · exact hopen

theorem addRow (h : p.Tallies counter size) (s : Groups κ γ χ) (r : ρ) :
    counter (p.addRow s r).counts = counter s.counts := by
  unfold Grouping.addRow
  cases s.current with
  | none => rfl
  | some group => exact (h.sum _ _).trans (congrArg _ (h.add group.2 r))

/-- The counter of the engine tallies if that of the grouping does. -/
theorem engine [SortKey κ] (h : p.Tallies counter size) :
    p.engine.Tallies (fun s => counter s.counts) size where
  additive := h.additive
  offer s r := by
    simp only [Grouping.engine, Grouping.offer]
    cases s.guard.accept (p.key r) with
    | error fault => exact (congrArg (counter s.counts + ·) h.additive.nil).symm
    | ok guard =>
        simp only [Grouping.take, h.addRow, given]
        exact h.enter { s with guard := guard, rows := s.rows + 1 } (p.group r)
  finish s := h.closeCurrent s

end Tallies
end Grouping
end Stream
end Reclaim
