import Reclaim.Dump.Row
import Reclaim.Grace
import Reclaim.Text.Integer
import Reclaim.Time.Timestamp

/-!
# Settings

The settings of a run are taken from the arguments of the command line and,
where an argument is not given, from the environment.  Some have defaults, and
some are only required by certain commands.

A setting that cannot be read or is not allowed is a fault with a wording.  A
grace period that is too long to be a duration is none of these: it makes the
program panic, and that is an outcome of its own.

Main result: `given_some` says that an argument hides its variable.
-/

namespace Reclaim

/-- The settings that arguments give. -/
structure Arguments where
  /-- The grace period in seconds. -/
  gracePeriod : Option Int := none
  reference : Option String := none
  earliest : Option String := none
  shard : Option String := none
  storageId : Option String := none
  concurrency : Option Nat := none
  deriving DecidableEq, Repr

/-- Why there are no settings for a run. -/
inductive SettingsFault
  | invalidGrace (text : String) (fault : Text.IntegerFault)
  | negativeGrace (seconds : Int)
  /--
  Making the duration of the grace period panics, since it has more
  milliseconds than can be counted.
  -/
  | gracePanic (seconds : Int)
  | invalidReference (text : String)
  | invalidEarliest (text : String)
  | invalidConcurrency (text : String) (fault : Text.IntegerFault)
  | noConcurrency
  | shardRequired
  | storageIdRequired
  | earliestRequired
  | invalidNodes (defect : Defect)
  deriving DecidableEq, Repr

namespace SettingsFault

/-- The wording of a fault; a panic is not worded here. -/
def message : SettingsFault → Option String
  | invalidGrace text fault =>
      some ("parsing MANTA_GC_GRACE_PERIOD_SECS value " ++ Defect.ticked text
        ++ ": " ++ fault.message)
  | negativeGrace seconds =>
      some ("grace period must not be negative, got " ++ toString seconds)
  | gracePanic _ => none
  | invalidReference text =>
      some ("parsing reference time " ++ Defect.ticked text)
  | invalidEarliest text =>
      some ("parsing earliest dump date " ++ Defect.ticked text)
  | invalidConcurrency text fault =>
      some ("parsing MANTA_GC_UNLINK_CONCURRENCY value " ++ Defect.ticked text
        ++ ": " ++ fault.message)
  | noConcurrency => some "unlink concurrency must be at least 1"
  | shardRequired =>
      some "a metadata shard is required (--shard or MANTA_GC_SHARD)"
  | storageIdRequired =>
      some "a storage id is required (--storage-id or MANTA_GC_STORAGE_ID)"
  | earliestRequired =>
      some ("cruft needs the earliest dump date (--earliest-dump-date or "
        ++ "MANTA_GC_EARLIEST_DUMP_DATE)")
  | invalidNodes defect =>
      some ("parsing --storage-nodes: " ++ defect.message)

end SettingsFault

/-- The settings of a run. -/
structure Settings where
  /-- The grace period in seconds. -/
  gracePeriod : Int
  /-- The time of reference, if it is not the present. -/
  reference : Option Time.Instant
  earliest : Option Time.Instant
  shard : Option String
  storageId : Option String
  concurrency : Nat
  deriving DecidableEq

namespace Settings

/-- Two days: nothing is removed earlier. -/
def defaultGracePeriod : Int := 2 * 24 * 60 * 60

/-- How many removals are under way at once. -/
def defaultConcurrency : Nat := 100

/-- The longest grace period whose milliseconds are a signed number of 64 bits. -/
def maxGracePeriod : Int := 9223372036854775

/-- The variables of the environment that are looked up. -/
def variableNames : List String :=
  ["MANTA_GC_GRACE_PERIOD_SECS", "MANTA_GC_REFERENCE_TIME",
    "MANTA_GC_EARLIEST_DUMP_DATE", "MANTA_GC_SHARD", "MANTA_GC_STORAGE_ID",
    "MANTA_GC_UNLINK_CONCURRENCY"]

/-- An argument or else a variable of the environment. -/
def given (argument : Option String) (env : String → Option String)
    (name : String) : Option String :=
  argument.or (env name)

/-- An argument hides its variable. -/
theorem given_some
    (text name : String) (env : String → Option String) :
    given (some text) env name = some text := rfl

/-- A number that is an argument, is read from the environment or is the default. -/
def numberOr {α : Type} (argument : Option α) (text : Option String)
    (absent : α) (read : String → Except Text.IntegerFault α)
    (fault : String → Text.IntegerFault → SettingsFault) :
    Except SettingsFault α :=
  match argument, text with
  | some n, _ => .ok n
  | none, some s => (read s).mapError (fault s)
  | none, none => .ok absent

/-- An instant that may be given. -/
def instant? (text : Option String) (fault : String → SettingsFault) :
    Except SettingsFault (Option Time.Instant) :=
  match text with
  | none => .ok none
  | some s =>
      match Time.Instant.parse? s with
      | some t => .ok (some t)
      | none => .error (fault s)

/-- Refuses a negative grace period. -/
def checkGrace (seconds : Int) : Except SettingsFault Unit :=
  if seconds < 0 then .error (.negativeGrace seconds) else .ok ()

/-- Refuses to remove nothing at once. -/
def checkConcurrency (n : Nat) : Except SettingsFault Unit :=
  if n = 0 then .error .noConcurrency else .ok ()

/-- Makes a duration of the seconds of a grace period, or panics. -/
def duration (seconds : Int) : Except SettingsFault Int :=
  if maxGracePeriod < seconds then .error (.gracePanic seconds)
  else .ok seconds

/--
The settings from arguments and environment.  The first fault is reported; the
duration is only made if there is none.
-/
def resolve (a : Arguments) (env : String → Option String) :
    Except SettingsFault Settings := do
  let gracePeriod ← numberOr a.gracePeriod (env "MANTA_GC_GRACE_PERIOD_SECS")
    defaultGracePeriod (Text.readInteger Text.maxSigned64) .invalidGrace
  checkGrace gracePeriod
  let reference ← instant? (given a.reference env "MANTA_GC_REFERENCE_TIME")
    .invalidReference
  let earliest ← instant? (given a.earliest env "MANTA_GC_EARLIEST_DUMP_DATE")
    .invalidEarliest
  let concurrency ← numberOr a.concurrency (env "MANTA_GC_UNLINK_CONCURRENCY")
    defaultConcurrency (Text.readNatural Text.maxUnsigned64) .invalidConcurrency
  checkConcurrency concurrency
  let gracePeriod ← duration gracePeriod
  .ok
    { gracePeriod, reference, earliest, concurrency
      shard := given a.shard env "MANTA_GC_SHARD"
      storageId := given a.storageId env "MANTA_GC_STORAGE_ID" }

/-- The shard, for commands that require one. -/
def requiredShard (s : Settings) : Except SettingsFault String :=
  match s.shard with
  | some shard => .ok shard
  | none => .error .shardRequired

/-- The storage node, for commands that require one. -/
def requiredStorageId (s : Settings) : Except SettingsFault String :=
  match s.storageId with
  | some storageId => .ok storageId
  | none => .error .storageIdRequired

/-- The time of the earliest dump, for commands that require one. -/
def requiredEarliest (s : Settings) : Except SettingsFault Time.Instant :=
  match s.earliest with
  | some t => .ok t
  | none => .error .earliestRequired

/-- The grace policy of a run at the present time `now`. -/
def policy (s : Settings) (now : Time.Instant) : GracePolicy :=
  ⟨s.reference.getD now, s.gracePeriod * Time.nanosPerSecond⟩

/-- The grace policy of a run at the time of the earliest dump. -/
def policyBefore (s : Settings) : Except SettingsFault GracePolicy := do
  let earliest ← s.requiredEarliest
  .ok ⟨earliest, s.gracePeriod * Time.nanosPerSecond⟩

/-- Where and when the dumps of a run were taken. -/
def origin (s : Settings) : Except SettingsFault Dump.Origin := do
  let shard ← s.requiredShard
  .ok ⟨shard, s.earliest⟩

end Settings
end Reclaim
