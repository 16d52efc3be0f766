import Reclaim.Audit.Auditor
import Reclaim.Cruft.Collector
import Reclaim.Object.Collector
import Reclaim.Placement.Planner
import Reclaim.Tool.Basic
import Reclaim.Upload.Collector

/-!
# Tools for sorted rows

These tools read sorted rows, one a line, and write what an engine makes of
them.  Empty lines are passed over.
-/

namespace Reclaim
namespace Tool

/-- Reads the rows of an engine and writes its actions. -/
def overRows {σ ρ α : Type} (e : Stream.Engine σ ρ α)
    (parse : String → Except Defect ρ) (write : α → String) :
    Stream.Engine σ Line String where
  offer s line :=
    if line.text.isEmpty then (s, .ok [])
    else
      match parse line.text with
      | .error d => (s, .error (.malformed line.number d))
      | .ok row =>
          let (s, answer) := e.offer s row
          (s, answer.map (·.map write))
  finish s :=
    let (s, actions) := e.finish s
    (s, actions.map write)

/-- The tool that runs an engine. -/
def ofEngine {σ ρ α : Type} (name : String) (start : σ)
    (e : Stream.Engine σ ρ α) (parse : String → Except Defect ρ)
    (write : α → String) : Tool :=
  ⟨name, σ, start, overRows e parse write⟩

/-- Collects dead objects. -/
def collectObjects (policy : GracePolicy) : Tool :=
  ofEngine "gc-objects" .start (Object.collector policy) Object.Row.parse
    Object.Action.line

/-- Collects finished uploads. -/
def collectUploads (policy : GracePolicy) : Tool :=
  ofEngine "gc-mpu" .start (Upload.collector policy) Upload.Record.parse
    Upload.Record.line

/-- Finds cruft. -/
def findCruft (policy : GracePolicy) : Tool :=
  ofEngine "cruft" .start (Cruft.collector policy) Cruft.Row.parse
    Cruft.Action.line

/-- Audits replicas. -/
def auditReplicas : Tool :=
  ofEngine "audit" .start Audit.auditor Audit.Row.parse Audit.Finding.line

/-- Plans moves. -/
def planMoves (digest : String → Nat) (v : Placement.Inventory) : Tool :=
  ofEngine "rebalance" {} (Placement.planner digest v) Placement.Row.parse
    Placement.Action.line

end Tool
end Reclaim
