import Reclaim.Fault
import Reclaim.Text.Utf8

/-!
# Lines of an input

An input is a row of bytes.  A newline ends a line, the last line may lack its
newline, and a carriage return before the newline does not belong to the line.
Lines are cut before they are decoded, so that bytes that are no text spoil one
line only.

Main result: `frames_append` says that inputs which end in a newline may be
joined.
-/

namespace Reclaim
namespace Tool

/-- A line with its number, counted from one. -/
structure Line where
  number : Nat
  text : String
  deriving DecidableEq

/-- The byte that ends a line. -/
def newline : UInt8 := 10

/-- The byte that may stand before a newline. -/
def carriageReturn : UInt8 := 13

/-- A byte in front of the lines that follow it. -/
def addByte (b : UInt8) (frames : List (List UInt8)) : List (List UInt8) :=
  if b = newline then [] :: frames
  else
    match frames with
    | [] => [[b]]
    | f :: fs => (b :: f) :: fs

/-- The lines of an input as bytes, without their newlines. -/
def frames (input : List UInt8) : List (List UInt8) :=
  input.foldr addByte []

/-- The bytes of a line without a carriage return at the end. -/
def withoutReturn (frame : List UInt8) : List UInt8 :=
  if frame.getLast? = some carriageReturn then frame.dropLast else frame

/-- Decodes a line. -/
def decodeLine (number : Nat) (frame : List UInt8) : Except Fault Line :=
  match Text.Utf8.decode (withoutReturn frame) with
  | .ok s => .ok ⟨number, String.ofList s⟩
  | .error e => .error (.malformed number (.notUtf8 e))

/-- The lines of two inputs, of which the first ends in a newline. -/
theorem frames_append (xs ys : List UInt8) :
    frames (xs ++ newline :: ys) = frames (xs ++ [newline]) ++ frames ys := by
  induction xs with
  | nil => simp [frames, addByte]
  | cons b xs ih =>
      have step : ∀ zs, frames (b :: zs) = addByte b (frames zs) :=
        fun _ => rfl
      simp only [List.cons_append, step, ih]
      simp only [addByte]
      split
      · rfl
      · cases h : frames (xs ++ [newline]) with
        | nil =>
            have : frames (xs ++ [newline]) ≠ [] := by
              cases xs with
              | nil => simp [frames, addByte]
              | cons c xs =>
                  simp only [List.cons_append, frames, List.foldr_cons,
                    addByte]
                  split
                  · simp
                  · split <;> simp
            exact absurd h this
        | cons f fs => simp

end Tool
end Reclaim
