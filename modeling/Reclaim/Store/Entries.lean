import Reclaim.Store.Path
import Reclaim.Store.Services

/-!
# Entries of a store

Objects and directories are listed, read, written, linked and unlinked.  An
entry is unlinked only if nothing lies below it, and an entry of an upload only
with permission.
-/

namespace Reclaim
namespace Store
namespace Services

/-- The entries that lie in a directory, with their names. -/
def children (s : Services) (directory : String) : List (String × Entry) :=
  let directory := trimmed directory
  (s.entries.pairs.filter fun p =>
      parent p.1 = directory && p.1 ≠ directory).map
    fun p => (nameIn directory p.1, p.2)

/-- Lists a directory. -/
def list (s : Services) (directory : String) :
    Services × Except Refusal (List (String × Entry)) :=
  match s.refusal? directory with
  | some e => (s, .error e)
  | none => (s.log (.list directory), .ok (s.children directory))

/-- The data of an object. -/
def data? (s : Services) (path : String) : Option (List UInt8) :=
  match s.entries.get? path with
  | some (.object data) => some data
  | _ => none

/-- Reads an object. -/
def get (s : Services) (path : String) :
    Services × Except Refusal (List UInt8) :=
  match s.refusal? path with
  | some e => (s, .error e)
  | none =>
      let s := s.log (.get path)
      match s.data? path with
      | some data => (s, .ok data)
      | none => (s, .error (.notFound path))

/-- Reads all parts of a body; the first one that cannot be read is a refusal. -/
def readBody : List (Except String (List UInt8)) →
    Except Refusal (List UInt8)
  | [] => .ok []
  | .error text :: _ => .error (.unreadableBody text)
  | .ok data :: r => (readBody r).map (data ++ ·)

/-- Checks the size that was announced. -/
def checkSize (path : String) (data : List UInt8) :
    Option Nat → Except Refusal Unit
  | some size =>
      if size = data.length then .ok ()
      else .error (.sizeMismatch path size data.length)
  | none => .ok ()

/-- Writes an object. -/
def put (s : Services) (path : String)
    (body : List (Except String (List UInt8))) (size : Option Nat) :
    Services × Except Refusal Unit :=
  match s.refusal? path with
  | some e => (s, .error e)
  | none =>
      match readBody body with
      | .error e => (s, .error e)
      | .ok data =>
          match checkSize path data size with
          | .error e => (s, .error e)
          | .ok () =>
              ((s.log (.put path data.length)).addEntry path (.object data),
                .ok ())

/-- Makes an object known at a second path. -/
def link (s : Services) (source target : String) :
    Services × Except Refusal Unit :=
  match (s.refusal? source).or (s.refusal? target) with
  | some e => (s, .error e)
  | none =>
      let s := s.log (.link source target)
      match s.data? source with
      | some data => (s.addEntry target (.object data), .ok ())
      | none => (s, .error (.notFound source))

/-- Some entry lies below a path. -/
def hasChildren (s : Services) (path : String) : Bool :=
  let start := childrenStart path
  match s.entries.firstFrom? start with
  | some (found, _) => Text.startsWith start found
  | none => false

/-- Why an entry may not be unlinked. -/
def unlinkRefusal? (s : Services) (path : String) (allowUploads : Bool) :
    Option Refusal :=
  match s.refusal? path with
  | some e => some e
  | none =>
      if isUploadPath path ∧ ¬ allowUploads then some (.uploadProtected path)
      else if s.hasChildren path then some (.notEmpty path)
      else if s.entries.contains path then none
      else some (.notFound path)

/-- Removes an entry. -/
def unlink (s : Services) (path : String) (allowUploads : Bool) :
    Services × Except Refusal Unit :=
  let s := s.log (.unlink path allowUploads)
  match s.unlinkRefusal? path allowUploads with
  | some e => (s, .error e)
  | none => ({ s with entries := s.entries.erase path }, .ok ())

end Services
end Store
end Reclaim
