import Reclaim.Fault
import Reclaim.Json.Basic
import Reclaim.Sorted.Map
import Reclaim.Text.Split

/-!
# Services

The services that a cleanup talks to: a store of entries, metadata shards with
records in buckets, and accounts.  They keep their data in memory, remember the
calls that were made, and refuse the calls for which failures are injected.
-/

namespace Reclaim
namespace Store

/-- What lies at a path. -/
inductive Entry
  | directory
  | object (data : List UInt8)
  deriving DecidableEq

/-- Where a record lies. -/
structure Slot where
  shard : String
  bucket : String
  key : String
  deriving DecidableEq

namespace Slot

/-- Slots are compared by shard, bucket and key. -/
def compareSlots : Slot → Slot → Ordering :=
  compareLex (compareOn shard) (compareLex (compareOn bucket) (compareOn key))

instance : Ord Slot := ⟨compareSlots⟩

instance : Std.TransOrd Slot :=
  inferInstanceAs (Std.TransCmp
    (compareLex (compareOn shard) (compareLex (compareOn bucket) (compareOn key))))

instance : Std.LawfulEqOrd Slot where
  eq_of_compare {a b} h := by
    have h : compareSlots a b = .eq := h
    simp only [compareSlots, compareLex, compareOn, Ordering.then_eq_eq,
      Std.LawfulEqOrd.compare_eq_iff_eq] at h
    cases a
    cases b
    simp_all

end Slot

/-- A record, and how often it has been written. -/
structure Stored where
  value : Json.Value
  version : Nat

/-- A call of a service. -/
inductive Call
  | resolve (account : Uuid)
  | list (directory : String)
  | get (path : String)
  | put (path : String) (size : Nat)
  | link (source target : String)
  | unlink (path : String) (allowUploads : Bool)
  | readRecord (slot : Slot)
  | writeRecord (slot : Slot)
  | deleteRecord (slot : Slot)
  deriving DecidableEq

/-- The data of the services and the calls that were made. -/
structure Services where
  entries : Sorted.SortedMap String Entry := .empty
  records : Sorted.SortedMap Slot Stored := .empty
  /-- The logins of the accounts, the latest first. -/
  accounts : List (Uuid × String) := []
  /-- Calls for targets that start like this are refused. -/
  failures : List String := []
  calls : List Call := []

namespace Services

/-- Remembers a call. -/
def log (s : Services) (c : Call) : Services :=
  { s with calls := s.calls ++ [c] }

/-- The refusal of a call for a target. -/
def refusal? (s : Services) (target : String) : Option Refusal :=
  if s.failures.any fun start => Text.startsWith start target then
    some (.injected target)
  else
    none

/-- Does something on a shard, unless the shard is refused. -/
def onShard {α : Type} (s : Services) (shard : String)
    (act : Services → Services × Except Refusal α) :
    Services × Except Refusal α :=
  match s.refusal? shard with
  | some e => (s, .error e)
  | none => act s

/-- Adds an account. -/
def addAccount (s : Services) (account : Uuid) (login : String) : Services :=
  { s with accounts := (account, login) :: s.accounts }

/-- Adds an entry. -/
def addEntry (s : Services) (path : String) (e : Entry) : Services :=
  { s with entries := s.entries.insert path e }

/-- Adds a record that has been written once. -/
def addRecord (s : Services) (slot : Slot) (value : Json.Value) : Services :=
  { s with records := s.records.insert slot ⟨value, 1⟩ }

/-- Injects a failure for all targets that start with a text. -/
def injectFailure (s : Services) (start : String) : Services :=
  { s with failures := s.failures ++ [start] }

/-- The login of an account. -/
def login? (s : Services) (account : Uuid) : Option String :=
  (s.accounts.find? fun a => a.1 = account).map Prod.snd

/-- Finds the login of an account. -/
def resolve (s : Services) (account : Uuid) :
    Services × Except Refusal String :=
  let s := s.log (.resolve account)
  match s.refusal? account.text with
  | some e => (s, .error e)
  | none =>
      match s.login? account with
      | some login => (s, .ok login)
      | none => (s, .error (.notFound account.text))

end Services
end Store
end Reclaim
