import Reclaim.Proofs.Dump.Decoded
import Reclaim.Proofs.Dump.Extraction
import Reclaim.Proofs.Wire.Lossless

/-!
# Lines of extracted rows

The rows that are extracted from dumps and listings reach the engines as lines.
A dump may give dates far from the present, objects without a name and payloads
that nest to the bound, and such rows are written although nothing can read
their lines: a date has four digits for its year in the lines that are read, an
object has a name, and a payload adds one level to the nesting of its row.  All
other rows are read as they were, with their dates cut to milliseconds.

Main result: `extracted_rows_read_back`.
-/

namespace Reclaim

/-! ## Single rows -/

namespace Object

namespace State

/-- All numbers in the payload of a tombstone are read back. -/
def Legible : State → Prop
  | live => True
  | dead payload _ => payload.Legible

/-- The payload of a tombstone nests no deeper than what is read. -/
def Shallow : State → Prop
  | live => True
  | dead payload _ => payload.Canonical Json.Number.Fits Json.maxDepth

theorem reread_iff {s : State} (legible : s.Legible) :
    s.reread = .ok s ↔ s.Shallow := by
  cases s with
  | live => exact ⟨fun _ => trivial, fun _ => rfl⟩
  | dead payload shard =>
      constructor
      · intro h
        rw [reread] at h
        split at h
        · next v hv =>
            cases h
            exact Json.canonical_of_parse hv
        · cases h
      · intro shallow
        obtain ⟨depth, numbers⟩ := legible
        have carried : payload.Canonical Json.Number.ReadsBack Json.maxDepth :=
          Json.Value.Canonical.withNumbers shallow numbers
        exact reread_of_carried carried

end State

namespace Row

/-- The row with its date cut to milliseconds. -/
def truncated (r : Row) : Row :=
  { r with date := r.date.truncateToMillis }

/-- A line is read as its row exactly if it has a year of four digits, a name and a payload
that nests within the bound. -/
theorem parse_line_iff
    {r : Row} (id : Text.tab ∉ r.objectId.toList) (legible : r.state.Legible) :
    parse r.line = .ok r.truncated ↔
      r.date.HasFourDigitYear ∧ r.objectId ≠ "" ∧ r.state.Shallow := by
  rw [parse_line r id]
  constructor
  · intro h
    split at h
    · cases h
    · next named =>
        by_cases year : r.date.HasFourDigitYear
        · rw [Time.Instant.parse?_text year] at h
          obtain ⟨s, hs, heq⟩ := Success.of_map h
          obtain rfl : s = r.state := congrArg Row.state heq
          exact ⟨year, by simpa using named, (State.reread_iff legible).1 hs⟩
        · rw [Time.Instant.parse?_text_eq_none year] at h
          cases h
  · rintro ⟨year, named, shallow⟩
    rw [if_neg (by simpa using named), Time.Instant.parse?_text year,
      (State.reread_iff legible).2 shallow]
    rfl

end Row
end Object

namespace Upload
namespace Record

/-- The record with its date cut to milliseconds. -/
def truncated (r : Record) : Record :=
  r.atDate r.date.truncateToMillis

theorem parse_line_iff {r : Record} (tabs : r.TabsInKey) :
    parse r.line = .ok r.truncated ↔ r.date.HasFourDigitYear := by
  rw [parse_line r tabs]
  by_cases year : r.date.HasFourDigitYear
  · rw [Time.Instant.parse?_text year]
    exact ⟨fun _ => year, fun _ => rfl⟩
  · rw [Time.Instant.parse?_text_eq_none year]
    exact ⟨nofun, fun h => absurd h year⟩

end Record
end Upload

namespace Cruft
namespace Row

theorem parse_line_stored_iff
    {objectId storageId owner : String} {date : Time.Instant}
    (tabs : (stored objectId storageId owner date).NoTabs) :
    parse (stored objectId storageId owner date).line =
        .ok (.stored objectId storageId owner date.truncateToMillis) ↔
      date.HasFourDigitYear := by
  rw [parse_line_stored tabs]
  by_cases year : date.HasFourDigitYear
  · rw [Time.Instant.parse?_text year]
    exact ⟨fun _ => year, fun _ => rfl⟩
  · rw [Time.Instant.parse?_text_eq_none year]
    exact ⟨nofun, fun h => absurd h year⟩

end Row
end Cruft

/-! ## Rows of dumps -/

namespace Dump

/-- All numbers in a row and in the upload of its metadata are read back. -/
structure Row.Legible (row : Row) : Prop where
  members : (Json.Value.object row).Legible
  upload : ∀ m, row.metadata = .ok m → ∀ v ∈ m.upload, v.Legible

/-- None of the strings holds a tab. -/
def NoTabs (strings : List String) : Prop :=
  ∀ s ∈ strings, Text.tab ∉ s.toList

end Dump

variable {origin : Dump.Origin} {row : Dump.Row}

theorem Object.Row.parse_extracted_iff
    {rs : List Object.Row} (legible : row.Legible)
    (tabs : Dump.NoTabs (origin.shard :: row.strings))
    (h : Object.Row.ofDump origin row = .ok rs) :
    ∀ r ∈ rs, Object.Row.parse r.line = .ok r.truncated ↔
      r.date.HasFourDigitYear ∧ r.objectId ≠ "" ∧ r.state.Shallow := by
  intro r hr
  refine parse_line_iff (tabs _ ?_) ?_
  · exact texts_subset_of_ofDump h r hr List.mem_cons_self
  · rcases cases_ofDump h with h | h | rfl
    · obtain ⟨m, id, -, -, -, heq⟩ := of_liveOfDump h r hr
      rw [heq]
      trivial
    · obtain ⟨id, -, -, heq⟩ := of_deadOfDump h r hr
      rw [heq]
      exact legible.members
    · cases hr

theorem Upload.Record.parse_extracted_iff
    {rs : List Upload.Record}
    (tabs : Dump.NoTabs (origin.shard :: row.strings))
    (h : Upload.Record.ofDump origin row = .ok rs) :
    ∀ r ∈ rs, Upload.Record.parse r.line = .ok r.truncated ↔
      r.date.HasFourDigitYear := by
  intro r hr
  have known := texts_subset_of_ofDump h r hr
  refine parse_line_iff ?_
  cases r with
  | finalizing f => exact tabs _ (known (by simp [texts]))
  | live l => trivial

theorem Cruft.Row.parse_extracted
    {rs : List Cruft.Row} (tabs : Dump.NoTabs row.strings)
    (h : Cruft.Row.ofDump row = .ok rs) :
    ∀ r ∈ rs, Cruft.Row.parse r.line = .ok r := by
  intro r hr
  have known := texts_subset_of_ofDump h r hr
  obtain ⟨m, id, -, -, rfl⟩ := of_ofDump h r hr
  exact parse_line_reference (tabs id (known List.mem_cons_self))

theorem Audit.Row.parse_extracted
    {rs : List Audit.Row} (tabs : Dump.NoTabs row.strings)
    (h : Audit.Row.ofDump row = .ok rs) :
    ∀ r ∈ rs, Audit.Row.parse r.line = .ok r := by
  intro r hr
  have known := texts_subset_of_ofDump h r hr
  have noTab : ∀ s ∈ r.texts, Text.tab ∉ s.toList := by
    intro s hs
    rcases List.mem_cons.1 (known hs) with rfl | hs
    · simp
    · exact tabs s hs
  refine parse_line r ?_
  cases r with
  | stored objectId storageId =>
      exact ⟨noTab _ (by simp [texts]), noTab _ (by simp [texts])⟩
  | expected objectId storageId owner key =>
      exact ⟨noTab _ (by simp [texts]), noTab _ (by simp [texts]),
        noTab _ (by simp [texts])⟩

theorem Placement.Row.parse_extracted
    {rs : List Placement.Row}
    (decoded : Json.Members.Canonical Json.Number.Fits Json.maxDepth row)
    (legible : row.Legible)
    (tabs : Dump.NoTabs (origin.shard :: row.strings))
    (h : Placement.Row.ofDump origin row = .ok rs) :
    ∀ r ∈ rs, Placement.Row.parse r.line = .ok r := by
  intro r hr
  have known := texts_subset_of_ofDump h r hr
  obtain ⟨hm, -, -⟩ := of_ofDump h r hr
  have writable :=
    (Dump.Row.isRead_of_metadata decoded hm).writable (legible.upload _ hm)
  rw [parse_line r (tabs _ (known (by simp [texts])))
    (tabs _ (known (by simp [texts]))), Metadata.ofText_text writable]

/-! ## Listings -/

namespace Listing

/-- A listed file has the storage node of the listing, texts without tabs and a whole second. -/
theorem of_parse
    {storageId line : String} {l : Listing} (h : parse storageId line = .ok l) :
    l.storageId = storageId ∧ Text.tab ∉ l.owner.toList ∧
      Text.tab ∉ l.objectId.toList ∧ l.date.nanos = 0 := by
  rw [parse] at h
  split at h
  · next path size mtime heq =>
      have tab : Text.tab ∉ path.toList := by
        have field : path ∈ Text.fields Text.tab line := by
          rw [heq]
          exact List.mem_cons_self
        obtain ⟨p, piece, rfl⟩ := List.mem_map.1 field
        rw [String.toList_ofList]
        exact Text.not_mem_of_mem_pieces piece
      split at h
      · cases h
      · next owner objectId hids =>
          obtain ⟨hown, hid⟩ := subset_of_ownerAndId? hids
          obtain ⟨bytes, -, h⟩ := Success.of_bind h
          obtain ⟨seconds, -, h⟩ := Success.of_bind h
          split at h
          · next date hdate =>
              obtain rfl := Except.ok.inj h
              refine ⟨rfl, fun hm => tab (hown hm), fun hm => tab (hid hm), ?_⟩
              rw [Time.Instant.ofSeconds?] at hdate
              split at hdate
              · obtain rfl := Option.some.inj hdate
                rfl
              · cases hdate
          · cases h
  · cases h

theorem parse_cruft_iff
    {storageId line : String} {l : Listing}
    (tab : Text.tab ∉ storageId.toList) (h : parse storageId line = .ok l) :
    Cruft.Row.parse (Cruft.Row.ofListing l).line = .ok (.ofListing l) ↔
      l.date.HasFourDigitYear := by
  obtain ⟨hstorage, howner, hid, hnanos⟩ := of_parse h
  have whole : l.date.truncateToMillis = l.date :=
    Time.Instant.truncateToMillis_of_isWholeMilli (by
      rw [Time.Instant.IsWholeMilli, hnanos])
  have tabs : (Cruft.Row.ofListing l).NoTabs :=
    ⟨hid, by rw [hstorage]; exact tab, howner⟩
  have iff := Cruft.Row.parse_line_stored_iff tabs
  rw [whole] at iff
  exact iff

theorem parse_audit
    {storageId line : String} {l : Listing}
    (tab : Text.tab ∉ storageId.toList) (h : parse storageId line = .ok l) :
    Audit.Row.parse (Audit.Row.ofListing l).line = .ok (.ofListing l) := by
  obtain ⟨hstorage, -, hid, -⟩ := of_parse h
  exact Audit.Row.parse_line _ ⟨hid, by rw [hstorage]; exact tab⟩

end Listing

namespace Wire

/--
Which rows that are extracted are read back from their lines, dates being cut to
milliseconds.  If no text holds control characters and all numbers are read
back, these are the tombstones and live rows with a name, a year of four digits
and a payload within the bound on nesting, the records of uploads and the listed
files with a year of four digits, and all references, replicas and placements.
-/
theorem extracted_rows_read_back
    (d : Dump.Decoder) (origin : Dump.Origin) (storageId line : String) :
    (∀ row : Dump.Row,
      (d.decodeLine line).2 = .ok (some row) → row.Legible →
      (∀ s ∈ origin.shard :: row.strings, Text.Printable s.toList) →
        (∀ rs, Object.Row.ofDump origin row = .ok rs →
          ∀ r ∈ rs, Object.Row.parse r.line = .ok r.truncated ↔
            r.date.HasFourDigitYear ∧ r.objectId ≠ "" ∧ r.state.Shallow) ∧
        (∀ rs, Upload.Record.ofDump origin row = .ok rs →
          ∀ r ∈ rs, Upload.Record.parse r.line = .ok r.truncated ↔
            r.date.HasFourDigitYear) ∧
        (∀ rs, Cruft.Row.ofDump row = .ok rs →
          ∀ r ∈ rs, Cruft.Row.parse r.line = .ok r) ∧
        (∀ rs, Audit.Row.ofDump row = .ok rs →
          ∀ r ∈ rs, Audit.Row.parse r.line = .ok r) ∧
        (∀ rs, Placement.Row.ofDump origin row = .ok rs →
          ∀ r ∈ rs, Placement.Row.parse r.line = .ok r)) ∧
      (∀ l : Listing,
        Listing.parse storageId line = .ok l →
        Text.Printable storageId.toList →
          (Cruft.Row.parse (Cruft.Row.ofListing l).line = .ok (.ofListing l) ↔
            l.date.HasFourDigitYear) ∧
          Audit.Row.parse (Audit.Row.ofListing l).line =
            .ok (.ofListing l)) := by
  constructor
  · intro row decoded legible printable
    have canonical := Dump.canonical_of_decodeLine decoded
    have tabs : Dump.NoTabs (origin.shard :: row.strings) :=
      fun s hs => (printable s hs).tab_not_mem
    have rowTabs : Dump.NoTabs row.strings :=
      fun s hs => tabs s (List.mem_cons_of_mem _ hs)
    exact ⟨fun _ => Object.Row.parse_extracted_iff legible tabs,
      fun _ => Upload.Record.parse_extracted_iff tabs,
      fun _ => Cruft.Row.parse_extracted rowTabs,
      fun _ => Audit.Row.parse_extracted rowTabs,
      fun _ => Placement.Row.parse_extracted canonical legible tabs⟩
  · intro l h printable
    have tab := printable.tab_not_mem
    exact ⟨Listing.parse_cruft_iff tab h, Listing.parse_audit tab h⟩

section Sample

/-- A shard with all its dumps taken at once. -/
def sampleOrigin : Dump.Origin :=
  ⟨"1.moray", none⟩

/-- A decoder of the table of objects and directories. -/
def sampleDecoder : Dump.Decoder :=
  ⟨some ⟨"manta", ["_mtime", "_value"]⟩, 1, 0, 0⟩

/-- The line of an object with one replica. -/
def sampleEntry : String :=
  "\x7b\"entry\":[1710000000000,\x7b\"key\":\"/a/b\",\"type\":\"object\","
    ++ "\"objectId\":\"o-1\",\"sharks\":[\x7b\"manta_storage_id\":\"1.stor\"\x7d]"
    ++ "\x7d]\x7d"

/-- The row of an object with one replica. -/
def sampleRow : Dump.Row :=
  [("__table", .string "manta"), ("_mtime", .number (.integer 1710000000000)),
    ("_value", .object
      [("key", .string "/a/b"), ("objectId", .string "o-1"),
        ("sharks", .array [.object [("manta_storage_id", .string "1.stor")]]),
        ("type", .string "object")])]

/-- The metadata of the sample. -/
def sampleMetadata : Metadata :=
  ⟨"/a/b", "object", some "o-1", none, [⟨none, "1.stor", none, none⟩], none,
    none⟩

theorem legible_sampleRow : sampleRow.Legible where
  members := by
    have date : (Json.Number.integer 1710000000000).ReadsBack :=
      Json.Number.IsInteger64.readsBack ⟨by decide, by decide⟩
    refine ⟨4, .object (by decide) ?_⟩
    simp only [sampleRow, List.forall_mem_cons]
    refine ⟨.string _ _, .number _ date, .object (by decide) ?_, nofun⟩
    simp only [List.forall_mem_cons]
    refine ⟨.string _ _, .string _ _, .array ?_, .string _ _, nofun⟩
    simp only [List.forall_mem_cons]
    refine ⟨.object (by decide) ?_, nofun⟩
    simp only [List.forall_mem_cons]
    exact ⟨.string _ _, nofun⟩
  upload := by
    have read : sampleRow.metadata = .ok sampleMetadata := rfl
    intro m hm
    obtain rfl := Except.ok.inj (read.symm.trans hm)
    nofun

theorem printable_sampleRow :
    ∀ s ∈ sampleOrigin.shard :: sampleRow.strings,
      Text.Printable s.toList := by
  have strings : sampleOrigin.shard :: sampleRow.strings =
      ["1.moray", "manta", "/a/b", "o-1", "1.stor", "object"] := rfl
  rw [strings]
  decide

/-- The rows of an object and of a listed file are read back from their lines. -/
theorem extracted_rows_read_back_sample :
    ((sampleDecoder.decodeLine sampleEntry).2 =
        .ok (some sampleRow) ∧
      sampleRow.Legible ∧
      (∀ s ∈ sampleOrigin.shard :: sampleRow.strings,
        Text.Printable s.toList) ∧
      ∃ live placed,
        Object.Row.ofDump sampleOrigin sampleRow =
            .ok [live] ∧
          Object.Row.parse live.line = .ok live.truncated ∧
          Placement.Row.ofDump sampleOrigin sampleRow =
            .ok [placed] ∧
          Placement.Row.parse placed.line = .ok placed) ∧
      ∃ l, Listing.parse "1.stor" "/a/o-2\t5\t1710000000" = .ok l ∧
        Text.Printable "1.stor".toList ∧
        Cruft.Row.parse (Cruft.Row.ofListing l).line = .ok (.ofListing l) ∧
        Audit.Row.parse (Audit.Row.ofListing l).line = .ok (.ofListing l) := by
  obtain ⟨dumps, -⟩ := extracted_rows_read_back sampleDecoder sampleOrigin
    "1.stor" sampleEntry
  obtain ⟨-, listings⟩ := extracted_rows_read_back sampleDecoder sampleOrigin
    "1.stor" "/a/o-2\t5\t1710000000"
  have decoded : (sampleDecoder.decodeLine sampleEntry).2 =
      .ok (some sampleRow) := by decide +kernel
  have live : Object.Row.ofDump sampleOrigin sampleRow =
      .ok [⟨"o-1", .wholeSecond 1710000000, .live⟩] := by decide +kernel
  have placed : Placement.Row.ofDump sampleOrigin sampleRow =
      .ok [⟨"o-1", "1.moray", sampleMetadata⟩] := by decide +kernel
  have listed : Listing.parse "1.stor" "/a/o-2\t5\t1710000000" =
      .ok ⟨"1.stor", "a", "o-2", 5, .wholeSecond 1710000000⟩ := by
    decide +kernel
  have year : (Time.Instant.wholeSecond 1710000000).HasFourDigitYear := by
    decide +kernel
  have node : Text.Printable "1.stor".toList := by
    decide
  obtain ⟨objects, -, -, -, placements⟩ :=
    dumps _ decoded legible_sampleRow printable_sampleRow
  obtain ⟨files, replicas⟩ := listings _ listed node
  refine ⟨⟨decoded, legible_sampleRow, printable_sampleRow, _, _, live, ?_,
      placed, ?_⟩, _, listed, node, files.2 year, replicas⟩
  · exact (objects _ live _ List.mem_cons_self).2
      ⟨year, by decide, trivial⟩
  · exact placements _ placed _ List.mem_cons_self

/-- The line of an object that is changed in the year 10000. -/
def farEntry : String :=
  "\x7b\"entry\":[253402300800000,\x7b\"key\":\"/a\",\"type\":\"object\","
    ++ "\"objectId\":\"o-1\"\x7d]\x7d"

/-- The row of an object that is changed in the year 10000. -/
def farRow : Dump.Row :=
  [("__table", .string "manta"), ("_mtime", .number (.integer 253402300800000)),
    ("_value", .object
      [("key", .string "/a"), ("objectId", .string "o-1"),
        ("type", .string "object")])]

/-- The line of an object that is changed in the year 10000 is not read. -/
theorem not_extracted_rows_read_back :
    ¬ ∀ (d : Dump.Decoder) (line : String) (row : Dump.Row)
      (origin : Dump.Origin) (rs : List Object.Row),
      (d.decodeLine line).2 = .ok (some row) →
      (∀ s ∈ origin.shard :: row.strings, Text.Printable s.toList) →
      Object.Row.ofDump origin row = .ok rs →
        ∀ r ∈ rs, Object.Row.parse r.line = .ok r.truncated := by
  intro claimed
  have decoded : (sampleDecoder.decodeLine farEntry).2 = .ok (some farRow) := by
    decide +kernel
  have printable : ∀ s ∈ sampleOrigin.shard :: farRow.strings,
      Text.Printable s.toList := by
    have strings : sampleOrigin.shard :: farRow.strings =
        ["1.moray", "manta", "/a", "o-1", "object"] := rfl
    rw [strings]
    decide
  have live : Object.Row.ofDump sampleOrigin farRow =
      .ok [⟨"o-1", .wholeSecond 253402300800, .live⟩] := by decide +kernel
  have read := claimed _ _ _ _ _ decoded printable live _ List.mem_cons_self
  have year := (Object.Row.parse_line_iff
    (r := ⟨"o-1", .wholeSecond 253402300800, .live⟩) (by decide) trivial).1 read
  exact absurd year.1 (by decide +kernel)

end Sample

end Wire
end Reclaim
