import Reclaim.Command
import Reclaim.CommandLine.Scan

/-!
# Reading a command line

A command line names one command with its parameters.  Settings may stand
before the command or behind it; where a setting stands in both places, the
later one counts.
-/

namespace Reclaim
namespace CommandLine

/-- A command that a command line may name. -/
structure Entry where
  name : String
  parameters : List Parameter := []
  /-- The command that a draft describes. -/
  command : Draft → Except UsageFault Command

/-- A list that has to be given. -/
def required (xs : List String) : Except UsageFault (List String) :=
  if xs.isEmpty then .error .missingParameter else .ok xs

namespace Entry

/-- The command for a job that has no parameters. -/
def plain (name : String) (job : Job) : Entry :=
  ⟨name, [], fun _ => .ok (.job job)⟩

/-- The command for a job that reads a dump or a listing. -/
def dumpOrListing (name : String) (job : Bool → Job) : Entry :=
  ⟨name, [.listing], fun d => .ok (.job (job d.listing))⟩

/-- The command that plans moves. -/
def planMoves : Entry :=
  ⟨"rebalance", [.nodes, .evacuating], fun d => do
    let nodes ← required d.nodes
    .ok (.job (.planMoves nodes d.evacuating))⟩

/-- The command that routes lines; fields stand between tabs unless another delimiter is given. -/
def routeLines : Entry :=
  ⟨"demux", [.outputs, .field, .delimiter], fun d => do
    let outputs ← required d.outputs
    .ok (.routeLines outputs d.field (d.delimiter.getD "\t"))⟩

end Entry

/-- All commands. -/
def entries : List Entry :=
  [.plain "decode" .decode,
    .plain "transform-gc" .extractObjects,
    .plain "transform-mpu" .extractUploads,
    .dumpOrListing "transform-cruft" .extractReferences,
    .dumpOrListing "transform-audit" .extractReplicas,
    .plain "transform-rebalance" .extractPlacements,
    .plain "gc-objects" .collectObjects,
    .plain "gc-mpu" .collectUploads,
    .plain "cruft" .findCruft,
    .plain "audit" .auditReplicas,
    .planMoves,
    .routeLines]

/-- The word that asks for help about a command. -/
def helpWord : String := "help"

/-- The words that are commands. -/
def commandWords : List String :=
  entries.map Entry.name ++ [helpWord]

/-- What a request for help about some words leads to. -/
def helpAbout : List String → UsageFault
  | [] => .help
  | [word] => if commandWords.contains word then .help else .unknownCommand
  | _ => .unknownCommand

/-- The settings behind a command, or else those before it. -/
def joined (before behind : Arguments) : Arguments where
  gracePeriod := behind.gracePeriod.or before.gracePeriod
  reference := behind.reference.or before.reference
  earliest := behind.earliest.or before.earliest
  shard := behind.shard.or before.shard
  storageId := behind.storageId.or before.storageId
  concurrency := behind.concurrency.or before.concurrency

/-- Reads what stands behind the name of a command. -/
def readEntry (e : Entry) (words : List String) :
    Except UsageFault (Arguments × Command) := do
  let parameters := e.parameters ++ Parameter.settings ++ [.help]
  let (s, _) ← Scan.run parameters [] {} words
  let d ← s.settle
  let command ← e.command d
  .ok (d.arguments, command)

/-- The fault of a command line without a command. -/
def withoutCommand (s : Scan) : UsageFault :=
  match s.settle with
  | .error fault => fault
  | .ok d => if d = {} then .nothingGiven else .noCommand

/-- Reads a command line. -/
def read (words : List String) : Except UsageFault (Arguments × Command) := do
  let parameters := Parameter.settings ++ [.help, .version]
  let (s, found) ← Scan.run parameters commandWords {} words
  match found with
  | none => .error (withoutCommand s)
  | some (word, rest) =>
      match entries.find? fun e => e.name = word with
      | none => .error (helpAbout rest)
      | some e => do
          let (behind, command) ← readEntry e rest
          let d ← s.settle
          .ok (joined d.arguments behind, command)

end CommandLine
end Reclaim
