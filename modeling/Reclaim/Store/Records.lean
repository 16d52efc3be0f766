import Reclaim.Store.Services

/-!
# Records of metadata shards

The version of a record is its etag.  A write that states an etag is refused
unless the record still has it.
-/

namespace Reclaim
namespace Store

/-- The etag of a record. -/
def Stored.etag (r : Stored) : String :=
  toString r.version

namespace Services

/-- Reads a record. -/
def readRecord (s : Services) (slot : Slot) :
    Services × Except Refusal Stored :=
  match s.refusal? slot.key with
  | some e => (s, .error e)
  | none =>
      let s := s.log (.readRecord slot)
      match s.records.get? slot with
      | some r => (s, .ok r)
      | none => (s, .error (.notFound slot.key))

/-- The etag of the record in a slot is the expected one, if any is expected. -/
def etagFits (s : Services) (slot : Slot) : Option String → Bool
  | some expected => (s.records.get? slot).map Stored.etag = some expected
  | none => true

/-- The record in a slot after a write. -/
def recordAfterWrite (s : Services) (slot : Slot) (value : Json.Value) : Stored :=
  match s.records.get? slot with
  | some r => ⟨value, r.version + 1⟩
  | none => ⟨value, 1⟩

/-- Writes a record. -/
def writeRecord (s : Services) (slot : Slot) (value : Json.Value)
    (etag : Option String) : Services × Except Refusal Unit :=
  match s.refusal? slot.key with
  | some e => (s, .error e)
  | none =>
      let s := s.log (.writeRecord slot)
      if s.etagFits slot etag then
        ({ s with
            records := s.records.insert slot (s.recordAfterWrite slot value) },
          .ok ())
      else
        (s, .error (.etagConflict slot.key))

/-- Deletes a record. -/
def deleteRecord (s : Services) (slot : Slot) :
    Services × Except Refusal Unit :=
  let s := s.log (.deleteRecord slot)
  match s.refusal? slot.key with
  | some e => (s, .error e)
  | none =>
      if s.records.contains slot then
        ({ s with records := s.records.erase slot }, .ok ())
      else
        (s, .error (.notFound slot.key))

end Services
end Store
end Reclaim
