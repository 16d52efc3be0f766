import Reclaim.Proofs.Metadata
import Reclaim.Proofs.Time.Order
import Reclaim.Proofs.Wire.Lines

/-!
# Lines lose nothing

A row is read back from its line exactly as it was, if its date has a year of
four digits and whole milliseconds, its JSON can be read back, and no field
holds a tab but the one that a format splits off last.

Main result: `rows_read_back`, for all five formats.
-/

namespace Reclaim

namespace Object

/-- A state that its line carries: the payload of a tombstone can be read back. -/
def State.Carried (good : Json.Number → Prop) : State → Prop
  | live => True
  | dead payload _ => payload.Canonical good Json.maxDepth

theorem State.reread_of_carried
    {s : State} (h : s.Carried Json.Number.ReadsBack) :
    s.reread = .ok s := by
  cases s with
  | live => rfl
  | dead payload shard => rw [reread, Json.parse_text h]

namespace Row

/-- A row that its line carries. -/
structure Carried (r : Row) : Prop where
  objectId_ne : r.objectId ≠ ""
  objectId_tab : Text.tab ∉ r.objectId.toList
  year : r.date.HasFourDigitYear
  milli : r.date.IsWholeMilli
  state : r.state.Carried Json.Number.IsInteger64

theorem parse_line_of_carried {r : Row} (h : r.Carried) :
    parse r.line = .ok r := by
  have state : r.state.Carried Json.Number.ReadsBack := by
    have hs := h.state
    cases hr : r.state with
    | live => trivial
    | dead payload shard =>
        rw [hr] at hs
        exact Json.Value.Canonical.mono
          (fun _ => Json.Number.IsInteger64.readsBack) hs
  have id : r.objectId.isEmpty = false := by
    simpa using h.objectId_ne
  rw [parse_line r h.objectId_tab, id, Time.Instant.parse?_text h.year,
    Time.Instant.truncateToMillis_of_isWholeMilli h.milli,
    State.reread_of_carried state]
  rfl

end Row
end Object

namespace Upload
namespace Record

/-- A record that its line carries. -/
structure Carried (r : Record) : Prop where
  tabs : r.TabsInKey
  year : r.date.HasFourDigitYear
  milli : r.date.IsWholeMilli

theorem atDate_date (r : Record) : r.atDate r.date = r := by
  cases r <;> rfl

theorem parse_line_of_carried {r : Record} (h : r.Carried) :
    parse r.line = .ok r := by
  rw [parse_line r h.tabs, Time.Instant.parse?_text h.year,
    Time.Instant.truncateToMillis_of_isWholeMilli h.milli]
  simp only [atDate_date]

end Record
end Upload

namespace Cruft
namespace Row

/-- A row that its line carries. -/
def Carried (r : Row) : Prop :=
  r.NoTabs ∧
    match r with
    | stored _ _ _ date => date.HasFourDigitYear ∧ date.IsWholeMilli
    | reference _ => True

theorem parse_line_of_carried {r : Row} (h : r.Carried) :
    parse r.line = .ok r := by
  cases r with
  | stored objectId storageId owner date =>
      obtain ⟨tabs, year, milli⟩ := h
      rw [parse_line_stored tabs, Time.Instant.parse?_text year,
        Time.Instant.truncateToMillis_of_isWholeMilli milli]
  | reference objectId => exact parse_line_reference h.1

end Row
end Cruft

namespace Placement
namespace Row

/-- A row that its line carries. -/
structure Carried (r : Row) : Prop where
  objectId_tab : Text.tab ∉ r.objectId.toList
  shard_tab : Text.tab ∉ r.shard.toList
  metadata : r.metadata.Writable Json.Number.IsInteger64

theorem parse_line_of_carried {r : Row} (h : r.Carried) :
    parse r.line = .ok r := by
  have metadata := h.metadata.mono fun _ => Json.Number.IsInteger64.readsBack
  rw [parse_line r h.objectId_tab h.shard_tab, Metadata.ofText_text metadata]

end Row
end Placement

namespace Wire

/--
Rows of all five formats are read back from their lines as they were: histories
of objects, upload records, rows of the search for cruft and of the audit, and
objects to be placed.
-/
theorem rows_read_back :
    (∀ r : Object.Row, r.Carried → Object.Row.parse r.line = .ok r) ∧
      (∀ r : Upload.Record, r.Carried → Upload.Record.parse r.line = .ok r) ∧
      (∀ r : Cruft.Row, r.Carried → Cruft.Row.parse r.line = .ok r) ∧
      (∀ r : Audit.Row, r.TabsInKey → Audit.Row.parse r.line = .ok r) ∧
      (∀ r : Placement.Row, r.Carried → Placement.Row.parse r.line = .ok r) :=
  ⟨fun _ => Object.Row.parse_line_of_carried,
    fun _ => Upload.Record.parse_line_of_carried,
    fun _ => Cruft.Row.parse_line_of_carried,
    fun r => Audit.Row.parse_line r,
    fun _ => Placement.Row.parse_line_of_carried⟩

section Sample

/-- A tombstone with nested JSON and a tab in its shard. -/
def sampleTombstone : Object.Row :=
  ⟨"o-1", .wholeSecond 1710000000,
    .dead
      (.object [("key", .string "a\tb\n"),
        ("sizes", .array [.number (.integer (-1)), .null])])
      "shard\t1"⟩

/-- A committed upload with a tab in its key. -/
def sampleCommit : Upload.Record :=
  .finalizing ⟨⟨List.replicate 32 ⟨7, by decide⟩, List.length_replicate⟩,
    "u:/a\tb", "1", .wholeSecond 1710000000, .commit⟩

/-- A stored file. -/
def sampleFile : Cruft.Row :=
  .stored "o-1" "1.stor" "owner" (.wholeSecond 1710000000)

/-- An expected replica with a tab in its key. -/
def sampleReplica : Audit.Row :=
  .expected "o-1" "1.stor" "owner" "/a\tb"

/-- An object with one replica and an upload. -/
def samplePlacement : Placement.Row :=
  ⟨"o-1", "1",
    ⟨"/a/b", "object", some "o-1", none, [⟨some "dc", "1.stor", none, none⟩],
      some (-5), some (.object [("id", .bool true)])⟩⟩

theorem carried_sampleTombstone : sampleTombstone.Carried where
  objectId_ne := by decide
  objectId_tab := by decide
  year := by decide +kernel
  milli := by decide
  state := by
    have number : (Json.Number.integer (-1)).IsInteger64 :=
      ⟨by decide, by decide⟩
    refine .object (by decide) ?_
    simp only [List.mem_cons, List.not_mem_nil, or_false]
    rintro m (rfl | rfl)
    · exact .string _ _
    · refine .array ?_
      simp only [List.mem_cons, List.not_mem_nil, or_false]
      rintro v (rfl | rfl)
      · exact .number _ number
      · exact .null _

theorem carried_samplePlacement : samplePlacement.Carried where
  objectId_tab := by decide
  shard_tab := by decide
  metadata :=
    { mtime := by
        rintro n ⟨⟩
        decide +kernel
      upload_ne_null := by
        rintro v ⟨⟩
        nofun
      upload := by
        rintro v ⟨⟩
        refine .object (by decide) ?_
        simp only [List.mem_singleton]
        rintro m rfl
        exact .bool _ _ }

theorem carried_sampleFile : sampleFile.Carried := by
  have tab : ∀ f ∈ ["o-1", "1.stor", "owner"], Text.tab ∉ f.toList := by
    decide
  exact ⟨⟨tab _ (by simp), tab _ (by simp), tab _ (by simp)⟩,
    by decide +kernel, by decide⟩

/-- The samples are read back from their lines. -/
theorem rows_read_back_sample :
    (sampleTombstone.Carried ∧
        Object.Row.parse sampleTombstone.line = .ok sampleTombstone) ∧
      (sampleCommit.Carried ∧
        Upload.Record.parse sampleCommit.line = .ok sampleCommit) ∧
      (sampleFile.Carried ∧
        Cruft.Row.parse sampleFile.line = .ok sampleFile) ∧
      (sampleReplica.TabsInKey ∧
        Audit.Row.parse sampleReplica.line = .ok sampleReplica) ∧
      (samplePlacement.Carried ∧
        Placement.Row.parse samplePlacement.line = .ok samplePlacement) := by
  obtain ⟨objects, uploads, files, replicas, placements⟩ := rows_read_back
  have commit : sampleCommit.Carried :=
    ⟨(by decide : Text.tab ∉ "1".toList), by decide +kernel, by decide⟩
  have tab : ∀ f ∈ ["o-1", "1.stor", "owner"], Text.tab ∉ f.toList := by
    decide
  have replica : sampleReplica.TabsInKey :=
    ⟨tab _ (by simp), tab _ (by simp), tab _ (by simp)⟩
  exact ⟨⟨carried_sampleTombstone, objects _ carried_sampleTombstone⟩,
    ⟨commit, uploads _ commit⟩,
    ⟨carried_sampleFile, files _ carried_sampleFile⟩,
    ⟨replica, replicas _ replica⟩,
    ⟨carried_samplePlacement, placements _ carried_samplePlacement⟩⟩

end Sample

end Wire
end Reclaim
