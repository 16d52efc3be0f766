import Reclaim.Stream.Engine
import Reclaim.Tool.Line

/-!
# Tools

A tool is an engine over the lines of an input, which gives lines of output.  A
line with a recoverable fault is skipped; a fatal fault ends the run, and then
nothing is written.
-/

namespace Reclaim

/-- An engine over lines with a name and a state of its own. -/
structure Tool where
  name : String
  State : Type
  start : State
  engine : Stream.Engine State Tool.Line String

namespace Tool

/-- Decodes a line and offers it. -/
def offerFrame (t : Tool) (s : t.State) (number : Nat) (frame : List UInt8) :
    t.State × Except Fault (List String) :=
  match decodeLine number frame with
  | .error fault => (s, .error fault)
  | .ok line => t.engine.offer s line

/-- How far a run has come. -/
structure Progress (t : Tool) where
  state : t.State
  lines : Nat
  skipped : Nat
  output : Array String

/-- Nothing has been read. -/
def Progress.start (t : Tool) : Progress t :=
  ⟨t.start, 0, 0, #[]⟩

/-- Reads one more line. -/
def Progress.step {t : Tool} (p : Progress t) (frame : List UInt8) :
    Except Fault (Progress t) :=
  let number := p.lines + 1
  match t.offerFrame p.state number frame with
  | (s, .ok output) => .ok ⟨s, number, p.skipped, p.output ++ output⟩
  | (s, .error fault) =>
      if fault.isFatal then .error fault
      else .ok ⟨s, number, p.skipped + 1, p.output⟩

/-- What a run has written, and how many lines it has read and skipped. -/
structure Summary where
  lines : Nat
  skipped : Nat
  output : List String
  deriving DecidableEq

namespace Summary

/-- The number of lines that have been written. -/
def emitted (s : Summary) : Nat :=
  s.output.length

end Summary

/-- Lines with a newline behind each. -/
def outputText (lines : List String) : String :=
  String.join (lines.map fun line => line ++ "\n")

/-- Runs a tool on an input. -/
def run (t : Tool) (input : List UInt8) : Except Fault Summary := do
  let p ← (frames input).foldlM Progress.step (Progress.start t)
  let (_, last) := t.engine.finish p.state
  .ok ⟨p.lines, p.skipped, (p.output ++ last).toList⟩

end Tool
end Reclaim
