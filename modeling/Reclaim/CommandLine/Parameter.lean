import Reclaim.Settings
import Reclaim.Text.Split

/-!
# Parameters of a command line

A parameter has a name, and it takes a value or none.  Each time it is given it
changes the draft of what the command line says.  A parameter that takes one
value may be given once in a place; a list may be given again and goes on.
-/

namespace Reclaim
namespace CommandLine

/-- Why a command line is not carried out. -/
inductive UsageFault
  /-- Help has been asked for. -/
  | help
  /-- The version has been asked for. -/
  | version
  /-- Nothing is given at all. -/
  | nothingGiven
  /-- Parameters are given, but no command. -/
  | noCommand
  | unknownCommand
  | unknownArgument
  /-- A parameter that a command requires is not given. -/
  | missingParameter
  /-- A parameter is given without its value. -/
  | missingValue
  /-- A value is no number of the range. -/
  | invalidNumber
  /-- A parameter that takes no value is given one. -/
  | unwantedValue
  /-- A parameter is given twice in one place. -/
  | repeated
  deriving DecidableEq, Repr

namespace UsageFault

/-- The wording of a fault. -/
def message : UsageFault → String
  | help => "usage: reclaim [settings] command [parameters]"
  | version => "reclaim 1.0"
  | nothingGiven => "a command is required; try --help"
  | noCommand => "a command is required"
  | unknownCommand => "unknown command"
  | unknownArgument => "unexpected argument"
  | missingParameter => "a required parameter is missing"
  | missingValue => "a parameter lacks its value"
  | invalidNumber => "a value is no number of the range"
  | unwantedValue => "a value is given to a parameter that takes none"
  | repeated => "a parameter is given more than once"

/-- The fault is an answer to a question. -/
def isAnswer : UsageFault → Bool
  | help => true
  | version => true
  | _ => false

end UsageFault

/-- What a command line says, as far as it has been read. -/
structure Draft where
  arguments : Arguments := {}
  listing : Bool := false
  nodes : List String := []
  evacuating : List String := []
  outputs : List String := []
  field : Option Nat := none
  delimiter : Option String := none
  deriving DecidableEq, Repr

/-- A parameter and what it changes. -/
structure Parameter where
  name : String
  /-- The letter that stands for the parameter behind one hyphen. -/
  letter : Option Char := none
  takesValue : Bool
  /-- Reads a value into a draft. -/
  apply : String → Draft → Except UsageFault Draft

namespace Parameter

/-- A parameter that takes one value. -/
def single {α : Type} (name : String) (read : String → Except UsageFault α)
    (get : Draft → Option α) (set : α → Draft → Draft) : Parameter where
  name := name
  takesValue := true
  apply s d :=
    if (get d).isSome then .error .repeated
    else (read s).map fun x => set x d

/-- A parameter that takes a list of values between commas. -/
def list (name : String) (read : String → Except UsageFault String)
    (extend : List String → Draft → Draft) : Parameter where
  name := name
  takesValue := true
  apply s d := ((Text.fields ',' s).mapM read).map fun xs => extend xs d

/-- Any text. -/
def text (s : String) : Except UsageFault String :=
  .ok s

/-- A path, which is not empty. -/
def path (s : String) : Except UsageFault String :=
  if s.isEmpty then .error .missingValue else .ok s

/-- A signed number of 64 bits. -/
def signed (s : String) : Except UsageFault Int :=
  (Text.readInteger Text.maxSigned64 s).mapError fun _ => .invalidNumber

/-- An unsigned number of 64 bits. -/
def unsigned (s : String) : Except UsageFault Nat :=
  (Text.readNatural Text.maxUnsigned64 s).mapError fun _ => .invalidNumber

/-- Asks for help. -/
def help : Parameter where
  name := "help"
  letter := some 'h'
  takesValue := false
  apply _ _ := .error .help

/-- Asks for the version. -/
def version : Parameter where
  name := "version"
  letter := some 'V'
  takesValue := false
  apply _ _ := .error .version

/-- Says that the input is a listing. -/
def listing : Parameter where
  name := "listing"
  takesValue := false
  apply _ d :=
    if d.listing then .error .repeated else .ok { d with listing := true }

/-- The storage nodes. -/
def nodes : Parameter :=
  list "storage-nodes" text fun xs d => { d with nodes := d.nodes ++ xs }

/-- The storage nodes that are being evacuated. -/
def evacuating : Parameter :=
  list "evacuate" text fun xs d =>
    { d with evacuating := d.evacuating ++ xs }

/-- The files that lines are routed to. -/
def outputs : Parameter :=
  list "outputs" path fun xs d => { d with outputs := d.outputs ++ xs }

/-- The field that lines are routed by. -/
def field : Parameter :=
  single "field" unsigned (·.field) fun n d => { d with field := some n }

/-- What stands between fields. -/
def delimiter : Parameter :=
  single "delimiter" text (·.delimiter) fun s d =>
    { d with delimiter := some s }

/-- A setting. -/
def setting {α : Type} (name : String) (read : String → Except UsageFault α)
    (get : Arguments → Option α) (set : α → Arguments → Arguments) :
    Parameter :=
  single name read (fun d => get d.arguments) fun x d =>
    { d with arguments := set x d.arguments }

/-- The settings, which may stand before the command or behind it. -/
def settings : List Parameter :=
  [setting "grace-period-secs" signed (·.gracePeriod)
      fun n a => { a with gracePeriod := some n },
    setting "reference-time" text (·.reference)
      fun s a => { a with reference := some s },
    setting "earliest-dump-date" text (·.earliest)
      fun s a => { a with earliest := some s },
    setting "shard" text (·.shard) fun s a => { a with shard := some s },
    setting "storage-id" text (·.storageId)
      fun s a => { a with storageId := some s },
    setting "unlink-concurrency" unsigned (·.concurrency)
      fun n a => { a with concurrency := some n }]

end Parameter
end CommandLine
end Reclaim
