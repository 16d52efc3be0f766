import Reclaim.Store.Entries
import Reclaim.Upload.Batch

/-!
# Removing the live records of an upload

The keys of live records start with the uuid of the owner, and the store wants
the login of the owner's account there.  Records that the owner does not own
are not removed.  All records of a kind are tried, and the first refusal is
reported; a record that is gone already counts as removed.
-/

namespace Reclaim
namespace Upload

/-- How live records are removed. -/
structure RemovalOptions where
  /-- How many removals may be under way at once; the services answer in order. -/
  concurrency : Nat
  /-- Entries of uploads may be removed. -/
  allowUploads : Bool
  deriving DecidableEq

/-- A text with its ASCII letters in lower case. -/
def lowered (s : List Char) : List Char :=
  s.map Char.toLower

/-- The path under the login of the account of a key under the uuid of its owner. -/
def accountPath? (key : String) (owner : Uuid) (login : String) :
    Option String :=
  match key.toList with
  | '/' :: path =>
      let (first, rest) := (Text.cut? '/' path).getD (path, [])
      if lowered first = owner.textChars then
        some (if rest.isEmpty then "/" ++ login
          else "/" ++ login ++ "/" ++ String.ofList rest)
      else
        none
  | _ => none

/-- The paths of records; one that the owner does not own is a fault of the batch. -/
def accountPaths (upload owner : Uuid) (login : String) :
    List LiveRecord → Except Fault (List String)
  | [] => .ok []
  | r :: rs =>
      match accountPath? r.key owner login with
      | none => .error (.invalidBatch upload (.notOwned r.key owner))
      | some path => (accountPaths upload owner login rs).map (path :: ·)

/-- Removes an entry that may be gone already. -/
def removePath (o : RemovalOptions) (s : Store.Services) (path : String) :
    Store.Services × Except Refusal Unit :=
  match s.unlink path o.allowUploads with
  | (s, .error (.notFound _)) => (s, .ok ())
  | answer => answer

/-- The services after removals, the number of removals and the first refusal. -/
structure Removal where
  services : Store.Services
  removed : Nat := 0
  failure : Option Fault := none

namespace Removal

/-- Removes one more path. -/
def remove (o : RemovalOptions) (m : Removal) (path : String) : Removal :=
  match removePath o m.services path with
  | (s, .ok ()) => { m with services := s, removed := m.removed + 1 }
  | (s, .error e) =>
      { m with
        services := s
        failure := m.failure.or (some (.unlinkFailed path e)) }

/-- How the removals ended. -/
def answer (m : Removal) : Except Fault Nat :=
  match m.failure with
  | some fault => .error fault
  | none => .ok m.removed

end Removal

/-- Removes all records and counts them. -/
def removeRecords (o : RemovalOptions) (s : Store.Services) (upload owner : Uuid)
    (login : String) (records : List LiveRecord) :
    Store.Services × Except Fault Nat :=
  match accountPaths upload owner login records with
  | .error fault => (s, .error fault)
  | .ok paths =>
      let m := paths.foldl (Removal.remove o) { services := s }
      (m.services, m.answer)

end Upload
end Reclaim
