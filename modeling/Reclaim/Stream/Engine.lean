import Reclaim.Fault

/-!
# Engines over streams

An engine takes the rows of a stream one by one.  It answers each row with
actions or refuses it with a fault, and gives its last actions at the end of
the stream.  A run stops at the first row that is refused.

Main result: `feed_append` says that a stream may be fed in parts.
-/

namespace Reclaim
namespace Stream

/-- What is made of the rows of a stream and of its end. -/
structure Engine (σ ρ α : Type) where
  /-- Takes a row. -/
  offer : σ → ρ → σ × Except Fault (List α)
  /-- Ends the stream. -/
  finish : σ → σ × List α

namespace Engine

variable {σ ρ α : Type}

/-- Offers rows up to the first one that is refused. -/
def feed (e : Engine σ ρ α) (s : σ) : List ρ → σ × Except Fault (List α)
  | [] => (s, .ok [])
  | r :: rs =>
      match e.offer s r with
      | (s, .error fault) => (s, .error fault)
      | (s, .ok first) =>
          let (s, rest) := e.feed s rs
          (s, rest.map (first ++ ·))

/-- Offers all rows and ends the stream. -/
def run (e : Engine σ ρ α) (s : σ) (rows : List ρ) :
    σ × Except Fault (List α) :=
  match e.feed s rows with
  | (s, .error fault) => (s, .error fault)
  | (s, .ok actions) =>
      let (s, last) := e.finish s
      (s, .ok (actions ++ last))

/-- Offers all rows and passes over those that are refused. -/
def feedThrough (e : Engine σ ρ α) (s : σ) : List ρ → σ × List α
  | [] => (s, [])
  | r :: rs =>
      match e.offer s r with
      | (s, .error _) => e.feedThrough s rs
      | (s, .ok first) =>
          let (s, rest) := e.feedThrough s rs
          (s, first ++ rest)

/-- The engine that gives what is made of the actions of another. -/
def thenEach {β : Type} (e : Engine σ ρ α) (f : α → List β) : Engine σ ρ β where
  offer s r :=
    let (s, answer) := e.offer s r
    (s, answer.map (·.flatMap f))
  finish s :=
    let (s, actions) := e.finish s
    (s, actions.flatMap f)

/-- Rows that are fed in two parts are fed one part after the other. -/
theorem feed_append (e : Engine σ ρ α) (s : σ) (rs ts : List ρ) :
    e.feed s (rs ++ ts) =
      match e.feed s rs with
      | (s, .error fault) => (s, .error fault)
      | (s, .ok first) =>
          let (s, rest) := e.feed s ts
          (s, rest.map (first ++ ·)) := by
  induction rs generalizing s with
  | nil =>
      cases h : e.feed s ts with
      | mk s₁ rest => cases rest <;> simp [feed, h, Except.map]
  | cons r rs ih =>
      simp only [List.cons_append, feed]
      cases h : e.offer s r with
      | mk s₁ answer =>
          cases answer with
          | error fault => rfl
          | ok first =>
              simp only [ih]
              cases h₁ : e.feed s₁ rs with
              | mk s₂ answer₂ =>
                  cases answer₂ with
                  | error fault => rfl
                  | ok second =>
                      cases h₂ : e.feed s₂ ts with
                      | mk s₃ rest => cases rest <;> simp [h₂, Except.map]

end Engine
end Stream
end Reclaim
