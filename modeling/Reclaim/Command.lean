import Reclaim.Routing.Files
import Reclaim.Routing.Router
import Reclaim.Settings
import Reclaim.Tool.Dump
import Reclaim.Tool.Rows

/-!
# Commands

A command runs one tool on its input, or routes the lines of its input to
files.  The settings that a tool needs are required before anything is read.
-/

namespace Reclaim

/-- What one tool does. -/
inductive Job
  | decode
  | extractObjects
  | extractUploads
  /-- References in a dump, or the files of a listing. -/
  | extractReferences (listing : Bool)
  /-- Expected replicas in a dump, or the replicas of a listing. -/
  | extractReplicas (listing : Bool)
  | extractPlacements
  | collectObjects
  | collectUploads
  | findCruft
  | auditReplicas
  | planMoves (nodes evacuating : List String)
  deriving DecidableEq, Repr

/-- What is to be done. -/
inductive Command
  | job (job : Job)
  /-- Routes lines to files by the whole line or by one of its fields. -/
  | routeLines (outputs : List String) (field : Option Nat)
      (delimiter : String)
  deriving DecidableEq, Repr

/-- Why a command fails. -/
inductive CommandFault
  | settings (fault : SettingsFault)
  | run (fault : Fault)
  deriving DecidableEq

namespace CommandFault

/-- The wording of a fault, unless it is a panic. -/
def message : CommandFault → Option String
  | settings fault => fault.message
  | run fault => some fault.message

end CommandFault

/-- What a command writes to its output and to files. -/
structure Written where
  output : List String
  files : List (String × List UInt8)
  deriving DecidableEq

namespace Job

/-- The storage nodes that a list of texts names. -/
def readNodes (nodes : List String) :
    Except SettingsFault (List Placement.Node) :=
  (nodes.mapM Placement.Node.parse).mapError .invalidNodes

/-- The tool for a job at the present time `now`. -/
def tool (digest : String → Nat) (s : Settings) (now : Time.Instant) :
    Job → Except SettingsFault Tool
  | decode => .ok Tool.decode
  | extractObjects => s.origin.map Tool.extractObjects
  | extractUploads => s.origin.map Tool.extractUploads
  | extractReferences true => s.requiredStorageId.map Tool.listCruft
  | extractReferences false => .ok Tool.extractReferences
  | extractReplicas true => s.requiredStorageId.map Tool.listReplicas
  | extractReplicas false => .ok Tool.extractReplicas
  | extractPlacements => s.origin.map Tool.extractPlacements
  | collectObjects => .ok (Tool.collectObjects (s.policy now))
  | collectUploads => .ok (Tool.collectUploads (s.policy now))
  | findCruft => s.policyBefore.map Tool.findCruft
  | auditReplicas => .ok Tool.auditReplicas
  | planMoves nodes evacuating =>
      (readNodes nodes).map fun ns =>
        Tool.planMoves digest (.ofNodes ns evacuating)

end Job

namespace Command

/-- The key of the lines that are routed. -/
def keyPart (field : Option Nat) (delimiter : String) : Routing.KeyPart :=
  match field with
  | some index => .field index delimiter
  | none => .wholeLine

/-- Runs a tool. -/
def runTool (t : Tool) (input : List UInt8) : Except CommandFault Written :=
  match t.run input with
  | .ok summary => .ok ⟨summary.output, []⟩
  | .error fault => .error (.run fault)

/-- Routes lines to files. -/
def runRouter (digest : String → Nat) (outputs : List String)
    (key : Routing.KeyPart) (input : List UInt8) :
    Except CommandFault Written :=
  match Routing.Router.ofOutputs outputs.length key.extract
      (Routing.selectByDigest digest) with
  | .ok r => .ok ⟨[], Routing.filesOf outputs (r.run input)⟩
  | .error fault => .error (.run fault)

/-- Runs a command on an input at the present time `now`. -/
def run (digest : String → Nat) (s : Settings) (now : Time.Instant)
    (c : Command) (input : List UInt8) : Except CommandFault Written :=
  match c with
  | job j =>
      match j.tool digest s now with
      | .error fault => .error (.settings fault)
      | .ok tool => runTool tool input
  | routeLines outputs field delimiter =>
      runRouter digest outputs (keyPart field delimiter) input

end Command
end Reclaim
