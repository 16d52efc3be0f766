import Reclaim.Fault
import Reclaim.Routing.Key
import Reclaim.Tool.Line

/-!
# Routing lines

A router sends every line to one of several outputs, chosen by the key of the
line.  Lines with the same key go to the same output in their order, so that
each output can be worked on by itself.

Main result: `route_lt` says that every line has an output.
-/

namespace Reclaim
namespace Routing

/-- Outputs, at least one, and the choice among them. -/
structure Router where
  outputs : Nat
  positive : 0 < outputs
  key : String → String
  select : String → Nat → Nat

namespace Router

/-- A router for some number of outputs; there has to be one. -/
def ofOutputs (outputs : Nat) (key : String → String)
    (select : String → Nat → Nat) : Except Fault Router :=
  if h : 0 < outputs then .ok ⟨outputs, h, key, select⟩
  else .error (.inputOutput "demux needs at least one output")

/-- The output of a line. -/
def route (r : Router) (line : String) : Nat :=
  r.select (r.key line) r.outputs % r.outputs

/-- Every line has an output. -/
theorem route_lt (r : Router) (line : String) :
    r.route line < r.outputs :=
  Nat.mod_lt _ r.positive

/-- A line without one newline and one carriage return at its end. -/
def withoutEnd (line : String) : String :=
  let s := line.toList
  let s := if s.getLast? = some '\n' then s.dropLast else s
  let s := if s.getLast? = some '\r' then s.dropLast else s
  String.ofList s

/-- The lines of each output, the latest first. -/
abbrev Outputs := List (List String)

/-- No line has been sent. -/
def start (r : Router) : Outputs :=
  List.replicate r.outputs []

/-- Sends a line to its output. -/
def send (r : Router) (outputs : Outputs) (line : String) : Outputs :=
  let line := withoutEnd line
  outputs.modify (r.route line) (line :: ·)

/-- Sends lines up to the first one that cannot be read. -/
def sendAll (r : Router) (outputs : Outputs) :
    List (Except String String) → Outputs × Except Fault Unit
  | [] => (outputs, .ok ())
  | .error text :: _ => (outputs, .error (.inputOutput text))
  | .ok line :: rest => r.sendAll (r.send outputs line) rest

end Router

/-- The lines of each output in their order. -/
def linesOf (outputs : Router.Outputs) : List (List String) :=
  outputs.map List.reverse

/-- The lines of an input that can be decoded. -/
def decodedLines (input : List UInt8) : List String :=
  ((Tool.frames input).zipIdx 1).filterMap fun (frame, number) =>
    match Tool.decodeLine number frame with
    | .ok line => some line.text
    | .error _ => none

/-- Routes the lines of an input. -/
def Router.run (r : Router) (input : List UInt8) : List (List String) :=
  linesOf ((decodedLines input).foldl r.send r.start)

/-- Counts a line for its output. -/
def Router.count (r : Router) (counts : List Nat) (line : String) : List Nat :=
  counts.modify (r.route (withoutEnd line)) (· + 1)

/-- How many lines of an input are sent to each output. -/
def Router.counts (r : Router) (input : List UInt8) : List Nat :=
  (decodedLines input).foldl r.count (List.replicate r.outputs 0)

end Routing
end Reclaim
