import Reclaim.Audit.Auditor
import Reclaim.Cruft.Collector
import Reclaim.Object.Collector
import Reclaim.Proofs.Success
import Reclaim.Proofs.Upload.Batches
import Reclaim.Proofs.Wire.Lossless
import Reclaim.Proofs.Wire.Order

/-!
# Sorted lines are taken

Between the tools the lines of rows are sorted as bytes.  The rows that are read
of the sorted lines are in the order that the engines want, so an engine takes
them all.

Main result: `takenSorted_of_aboveTabs`, for the four formats that are sorted.
-/

namespace Reclaim
namespace Wire

/-- The first line is not after the second one, as bytes. -/
def bytesLE (a b : String) : Bool :=
  (compare (Text.Utf8.encode a.toList) (Text.Utf8.encode b.toList)).isLE

/-- Lines sorted as bytes. -/
def sortLines (lines : List String) : List String :=
  lines.mergeSort bytesLE

theorem mem_sortLines {lines : List String} {a : String} :
    a ∈ sortLines lines ↔ a ∈ lines :=
  List.mem_mergeSort

/-- Sorting lines as bytes sorts them as characters. -/
theorem pairwise_sortLines (lines : List String) :
    (sortLines lines).Pairwise fun a b =>
      (compare a.toList b.toList).isLE = true := by
  have sorted : (sortLines lines).Pairwise fun a b => bytesLE a b = true := by
    apply List.pairwise_mergeSort
    · intro a b c hab hbc
      exact Std.TransCmp.isLE_trans hab hbc
    · intro a b
      unfold bytesLE
      cases h : compare (Text.Utf8.encode a.toList)
          (Text.Utf8.encode b.toList) with
      | lt => rfl
      | eq => rfl
      | gt => rw [Std.OrientedCmp.lt_of_gt h]; rfl
  exact sorted.imp fun h => by rwa [bytesLE, Text.Utf8.compare_encode] at h

section Taken

variable {σ ρ κ α : Type} [Stream.SortKey κ]

/--
The sorted lines are read as rows in order, and the engine refuses none of
them.
-/
def TakenSorted (parse : String → Except Defect ρ) (key : ρ → κ)
    (e : Stream.Engine σ ρ α) (start : σ) (lines : List String) : Prop :=
  ∃ rows actions, (sortLines lines).mapM parse = .ok rows ∧
    Stream.InOrder key rows ∧ (e.run start rows).2 = .ok actions

/-- Lines in order are read as rows in order, if reading keeps the order of two lines. -/
theorem exists_inOrder_of_pairwise
    (parse : String → Except Defect ρ) (key : ρ → κ) {lines : List String}
    (sorted : lines.Pairwise fun a b =>
      (compare a.toList b.toList).isLE = true)
    (readable : ∀ a ∈ lines, ∃ r, parse a = .ok r)
    (follows : ∀ a ∈ lines, ∀ b ∈ lines,
      (compare a.toList b.toList).isLE → ∀ r s, parse a = .ok r →
        parse b = .ok s → (compare (key r) (key s)).isLE) :
    ∃ rows, lines.mapM parse = .ok rows ∧
      (∀ r ∈ rows, ∃ a ∈ lines, parse a = .ok r) ∧
      Stream.InOrder key rows := by
  induction lines with
  | nil => exact ⟨[], rfl, by simp, List.Pairwise.nil⟩
  | cons a lines ih =>
      obtain ⟨first, tail⟩ := List.pairwise_cons.1 sorted
      obtain ⟨r, hr⟩ := readable a (by simp)
      obtain ⟨rows, hrows, source, inOrder⟩ := ih tail
        (fun b hb => readable b (by simp [hb]))
        (fun b hb c hc => follows b (by simp [hb]) c (by simp [hc]))
      refine ⟨r :: rows, ?_, ?_, ?_⟩
      · rw [List.mapM_cons, hr, hrows]
        rfl
      · intro s hs
        rcases List.mem_cons.1 hs with rfl | hs
        · exact ⟨a, by simp, hr⟩
        · obtain ⟨b, hb, hread⟩ := source s hs
          exact ⟨b, by simp [hb], hread⟩
      · refine List.pairwise_cons.2 ⟨?_, inOrder⟩
        intro s hs
        obtain ⟨b, hb, hread⟩ := source s hs
        exact follows a (by simp) b (by simp [hb]) (first b hb) r s hr hread

/-- Sorted lines of rows are taken by an engine that takes all rows in order. -/
theorem takenSorted_of_follows
    {parse : String → Except Defect ρ} {key : ρ → κ}
    {e : Stream.Engine σ ρ α} {start : σ} {line : ρ → String} {rows : List ρ}
    (takes : ∀ rows, Stream.InOrder key rows →
      ∃ actions, (e.run start rows).2 = .ok actions)
    (readable : ∀ r ∈ rows, ∃ r', parse (line r) = .ok r')
    (follows : ∀ r ∈ rows, ∀ s ∈ rows,
      (compare (line r).toList (line s).toList).isLE → ∀ r' s',
        parse (line r) = .ok r' → parse (line s) = .ok s' →
          (compare (key r') (key s')).isLE) :
    TakenSorted parse key e start (rows.map line) := by
  have mem : ∀ a ∈ sortLines (rows.map line), ∃ r ∈ rows, line r = a :=
    fun a ha => List.mem_map.1 (mem_sortLines.1 ha)
  obtain ⟨parsed, hparsed, -, inOrder⟩ :=
    exists_inOrder_of_pairwise parse key
      (pairwise_sortLines (rows.map line))
      (by
        intro a ha
        obtain ⟨r, hr, rfl⟩ := mem a ha
        exact readable r hr)
      (by
        intro a ha b hb
        obtain ⟨r, hr, rfl⟩ := mem a ha
        obtain ⟨s, hs, rfl⟩ := mem b hb
        exact follows r hr s hs)
  obtain ⟨actions, hactions⟩ := takes parsed inOrder
  exact ⟨parsed, actions, hparsed, inOrder, hactions⟩

/-- Where sorted lines are taken, an earlier line has no later key. -/
theorem TakenSorted.key_le_of_line_lt
    {parse : String → Except Defect ρ} {key : ρ → κ}
    {e : Stream.Engine σ ρ α} {start : σ} {line : ρ → String} {rows : List ρ}
    (read : ∀ r ∈ rows, parse (line r) = .ok r)
    (h : TakenSorted parse key e start (rows.map line)) :
    ∀ r ∈ rows, ∀ s ∈ rows,
      compare (line r).toList (line s).toList = .lt →
        (compare (key r) (key s)).isLE := by
  obtain ⟨parsed, actions, hparsed, inOrder, -⟩ := h
  have lines : parsed.map line = sortLines (rows.map line) := by
    refine Success.map_of_mapM ?_ hparsed
    intro a ha row hrow
    obtain ⟨r, hr, rfl⟩ := List.mem_map.1 (mem_sortLines.1 ha)
    rw [read r hr] at hrow
    cases hrow
    rfl
  have mem : ∀ r ∈ rows, r ∈ parsed := by
    intro r hr
    obtain ⟨row, hrow, hread⟩ := Success.exists_mem_of_mapM hparsed (line r)
      (mem_sortLines.2 (List.mem_map_of_mem hr))
    rw [read r hr] at hread
    cases hread
    exact hrow
  have sorted : parsed.Pairwise fun a b =>
      (compare (line a).toList (line b).toList).isLE = true := by
    have all := pairwise_sortLines (rows.map line)
    rwa [← lines, List.pairwise_map] at all
  intro r hr s hs
  refine List.Pairwise.forall_of_forall_of_flip
    (R := fun a b => compare (line a).toList (line b).toList = .lt →
      (compare (key a) (key b)).isLE = true) ?_ ?_ ?_ (mem r hr) (mem s hs)
  · intro a _ hlt
    have same : compare (line a).toList (line a).toList = .eq :=
      Std.ReflCmp.compare_self
    rw [same] at hlt
    cases hlt
  · refine List.Pairwise.imp ?_ inOrder
    exact fun hle _ => hle
  · refine sorted.imp fun {a b} hle hlt => ?_
    rw [Std.OrientedCmp.gt_of_lt hlt] at hle
    cases hle

/-- An engine that works in groups takes all rows in order. -/
theorem grouping_takes
    {γ χ : Type} [Stream.Counters χ] [Std.OrientedOrd κ]
    (p : Stream.Grouping ρ κ γ χ α) (rows : List ρ)
    (h : Stream.InOrder p.key rows) :
    ∃ actions, (p.engine.run .start rows).2 = .ok actions :=
  ⟨_, p.groupwise.run_eq_groups h⟩

end Taken

end Wire

namespace Object
namespace Row

/-- Sorted lines of histories are taken by the collector. -/
theorem takenSorted
    (policy : GracePolicy) {rows : List Row}
    (year : ∀ r ∈ rows, r.date.HasFourDigitYear)
    (above : ∀ r ∈ rows, Text.AboveTab r.objectId)
    (readable : ∀ r ∈ rows, ∃ r', parse r.line = .ok r') :
    Wire.TakenSorted parse key (collector policy) .start (rows.map line) := by
  refine Wire.takenSorted_of_follows
    (Wire.grouping_takes (grouping policy)) readable ?_
  have read : ∀ r ∈ rows, ∀ r', parse r.line = .ok r' →
      r'.key = ({ r with date := r.date.truncateToMillis } : Row).key := by
    intro r hr r' h
    rw [parse_line r (above r hr).tab_not_mem,
      Time.Instant.parse?_text (year r hr)] at h
    split at h
    · cases h
    · cases hs : r.state.reread with
      | error e =>
          rw [hs] at h
          cases h
      | ok s =>
          rw [hs] at h
          cases h
          simp only [key, State.tag_of_reread hs]
  intro r hr s hs hle r' s' hr' hs'
  rw [read r hr r' hr', read s hs s' hs']
  exact key_le_of_line_le (above r hr) (above s hs)
    (Time.Instant.compare_text (year r hr) (year s hs)) hle

end Row
end Object

namespace Upload
namespace Record

/-- The collector takes all records in order. -/
theorem collector_takes
    (policy : GracePolicy) (records : List Record)
    (h : Stream.InOrder sortKey records) :
    ∃ actions, ((collector policy).run .start records).2 = .ok actions := by
  rw [collector, Stream.Engine.run_thenEach,
    (batches_groupwise policy).run_eq_names uploads_follow_keys h]
  exact ⟨_, rfl⟩

/-- Sorted lines of upload records are taken by the collector. -/
theorem takenSorted
    (policy : GracePolicy) {records : List Record}
    (year : ∀ r ∈ records, r.date.HasFourDigitYear)
    (above : ∀ r ∈ records, r.AboveTabs)
    (readable : ∀ r ∈ records, ∃ r', parse r.line = .ok r') :
    Wire.TakenSorted parse sortKey (collector policy) .start
      (records.map line) := by
  refine Wire.takenSorted_of_follows (collector_takes policy) readable ?_
  have read : ∀ r ∈ records, parse r.line =
      .ok (r.atDate r.date.truncateToMillis) := by
    intro r hr
    rw [parse_line r (above r hr).tabsInKey, Time.Instant.parse?_text (year r hr)]
  intro r hr s hs hle r' s' hr' hs'
  rw [read r hr] at hr'
  rw [read s hs] at hs'
  cases hr'
  cases hs'
  exact key_le_of_line_le (above r hr) (above s hs)
    (Time.Instant.compare_text (year r hr) (year s hs)) hle

end Record
end Upload

namespace Cruft
namespace Row

/-- Sorted lines of the search for cruft are taken by the collector. -/
theorem takenSorted
    (policy : GracePolicy) {rows : List Row}
    (above : ∀ r ∈ rows, r.AboveTabs)
    (readable : ∀ r ∈ rows, ∃ r', parse r.line = .ok r') :
    Wire.TakenSorted parse key (collector policy) .start (rows.map line) := by
  refine Wire.takenSorted_of_follows
    (Wire.grouping_takes (grouping policy)) readable ?_
  have read : ∀ r ∈ rows, ∀ r', parse r.line = .ok r' → r'.key = r.key := by
    intro r hr r' h
    cases r with
    | stored id storageId owner date =>
        rw [parse_line_stored (above _ hr).noTabs] at h
        cases hd : Time.Instant.parse? date.text with
        | none =>
            rw [hd] at h
            cases h
        | some t =>
            rw [hd] at h
            cases h
            rfl
    | reference id =>
        rw [parse_line_reference (above _ hr).noTabs] at h
        cases h
        rfl
  intro r hr s hs hle r' s' hr' hs'
  rw [read r hr r' hr', read s hs s' hs']
  exact key_le_of_line_le (above r hr).keyAboveTabs (above s hs).keyAboveTabs hle

end Row
end Cruft

namespace Audit
namespace Row

/-- Sorted lines of the audit are taken by the auditor. -/
theorem takenSorted
    {rows : List Row} (above : ∀ r ∈ rows, r.AboveTabs) :
    Wire.TakenSorted parse key auditor .start (rows.map line) := by
  have read : ∀ r ∈ rows, parse r.line = .ok r :=
    fun r hr => parse_line r (above r hr).tabsInKey
  refine Wire.takenSorted_of_follows (Wire.grouping_takes grouping)
    (fun r hr => ⟨r, read r hr⟩) ?_
  intro r hr s hs hle r' s' hr' hs'
  rw [read r hr] at hr'
  rw [read s hs] at hs'
  cases hr'
  cases hs'
  exact key_le_of_line_le (above r hr) (above s hs) hle

end Row
end Audit
namespace Wire

/--
Rows of each of the four sorted formats are taken by their engine after their
lines have been sorted as bytes and read again, if the dates have years of four
digits, the fields come after tabs (payloads, keys of live upload records and
keys of the audit apart) and the lines are read at all.
-/
theorem takenSorted_of_aboveTabs :
    (∀ (policy : GracePolicy) (rows : List Object.Row),
      (∀ r ∈ rows, r.date.HasFourDigitYear ∧ Text.AboveTab r.objectId) →
      (∀ r ∈ rows, ∃ r', Object.Row.parse r.line = .ok r') →
        TakenSorted Object.Row.parse Object.Row.key (Object.collector policy)
          .start (rows.map Object.Row.line)) ∧
      (∀ (policy : GracePolicy) (records : List Upload.Record),
        (∀ r ∈ records, r.date.HasFourDigitYear ∧ r.AboveTabs) →
        (∀ r ∈ records, ∃ r', Upload.Record.parse r.line = .ok r') →
          TakenSorted Upload.Record.parse Upload.Record.sortKey
            (Upload.collector policy) .start
            (records.map Upload.Record.line)) ∧
      (∀ (policy : GracePolicy) (rows : List Cruft.Row),
        (∀ r ∈ rows, r.AboveTabs) →
        (∀ r ∈ rows, ∃ r', Cruft.Row.parse r.line = .ok r') →
          TakenSorted Cruft.Row.parse Cruft.Row.key (Cruft.collector policy)
            .start (rows.map Cruft.Row.line)) ∧
      ∀ rows : List Audit.Row, (∀ r ∈ rows, r.AboveTabs) →
        TakenSorted Audit.Row.parse Audit.Row.key Audit.auditor .start
          (rows.map Audit.Row.line) :=
  ⟨fun policy _ h readable =>
      Object.Row.takenSorted policy (fun r hr => (h r hr).1)
        (fun r hr => (h r hr).2) readable,
    fun policy _ h readable =>
      Upload.Record.takenSorted policy (fun r hr => (h r hr).1)
        (fun r hr => (h r hr).2) readable,
    fun policy _ h readable => Cruft.Row.takenSorted policy h readable,
    fun _ h => Audit.Row.takenSorted h⟩

section Sample

/-- A live row before a tombstone of an object that comes first. -/
def sampleHistory : List Object.Row :=
  [⟨"o-2", .wholeSecond 1710000000, .live⟩, sampleTombstone]

/-- The record of a committed upload before a directory of another one. -/
def sampleUploads : List Upload.Record :=
  [Upload.sampleFinalizing (.last 15) 1, Upload.sampleLive "a/u" .directory]

/-- A reference before the stored file. -/
def sampleFiles : List Cruft.Row :=
  [.reference "o-1", sampleFile]

/-- An expected replica before a stored one. -/
def sampleReplicas : List Audit.Row :=
  [sampleReplica, .stored "o-1" "2.stor"]

/-- Everything older than two days at a later second is given up. -/
def samplePolicy : GracePolicy :=
  ⟨.wholeSecond 1720000000, 172800000000000⟩

theorem hasFourDigitYear_samples :
    (∀ r ∈ sampleHistory, r.date.HasFourDigitYear) ∧
      ∀ r ∈ sampleUploads, r.date.HasFourDigitYear := by
  decide +kernel

theorem readable_sampleHistory :
    ∀ r ∈ sampleHistory, ∃ r', Object.Row.parse r.line = .ok r' := by
  have live : (⟨"o-2", .wholeSecond 1710000000, .live⟩ : Object.Row).Carried :=
    { carried_sampleTombstone with
      objectId_ne := by decide
      objectId_tab := by decide
      state := trivial }
  simp only [sampleHistory, List.mem_cons, List.not_mem_nil, or_false]
  rintro r (rfl | rfl)
  · exact ⟨_, Object.Row.parse_line_of_carried live⟩
  · exact ⟨_, Object.Row.parse_line_of_carried carried_sampleTombstone⟩

theorem readable_sampleUploads :
    ∀ r ∈ sampleUploads, ∃ r', Upload.Record.parse r.line = .ok r' := by
  intro r hr
  have year := hasFourDigitYear_samples.2 r hr
  simp only [sampleUploads, List.mem_cons, List.not_mem_nil, or_false] at hr
  rcases hr with rfl | rfl
  · exact ⟨_, Upload.Record.parse_line_of_carried
      ⟨(by decide : Text.tab ∉ "s1".toList), year, by decide⟩⟩
  · exact ⟨_, Upload.Record.parse_line_of_carried
      ⟨trivial, year, by decide⟩⟩

/-- The samples, whose lines are not sorted yet, are taken after sorting. -/
theorem takenSorted_samples :
    TakenSorted Object.Row.parse Object.Row.key
        (Object.collector samplePolicy) .start
        (sampleHistory.map Object.Row.line) ∧
      TakenSorted Upload.Record.parse Upload.Record.sortKey
        (Upload.collector samplePolicy) .start
        (sampleUploads.map Upload.Record.line) ∧
      TakenSorted Cruft.Row.parse Cruft.Row.key
        (Cruft.collector samplePolicy) .start
        (sampleFiles.map Cruft.Row.line) ∧
      TakenSorted Audit.Row.parse Audit.Row.key Audit.auditor .start
        (sampleReplicas.map Audit.Row.line) := by
  obtain ⟨objects, uploads, files, replicas⟩ := takenSorted_of_aboveTabs
  obtain ⟨historyYear, uploadYear⟩ := hasFourDigitYear_samples
  have above : ∀ f ∈ ["o-1", "o-2", "1.stor", "2.stor", "owner", "x", "s1"],
      Text.AboveTab f := by
    decide +kernel
  refine ⟨objects samplePolicy _ ?_ readable_sampleHistory,
    uploads samplePolicy _ ?_ readable_sampleUploads,
    files samplePolicy _ ?_ ?_, replicas _ ?_⟩
  · refine fun r hr => ⟨historyYear r hr, ?_⟩
    simp only [sampleHistory, List.mem_cons, List.not_mem_nil, or_false] at hr
    rcases hr with rfl | rfl <;> exact above _ (by decide)
  · refine fun r hr => ⟨uploadYear r hr, ?_⟩
    simp only [sampleUploads, List.mem_cons, List.not_mem_nil, or_false] at hr
    rcases hr with rfl | rfl
    · exact ⟨above "x" (by decide), above "s1" (by decide)⟩
    · trivial
  · simp only [sampleFiles, List.mem_cons, List.not_mem_nil, or_false]
    rintro r (rfl | rfl)
    · exact above "o-1" (by decide)
    · exact ⟨above "o-1" (by decide), above "1.stor" (by decide),
        above "owner" (by decide)⟩
  · simp only [sampleFiles, List.mem_cons, List.not_mem_nil, or_false]
    rintro r (rfl | rfl)
    · exact ⟨_, Cruft.Row.parse_line_reference
        (above "o-1" (by decide)).tab_not_mem⟩
    · exact ⟨_, Cruft.Row.parse_line_of_carried carried_sampleFile⟩
  · simp only [sampleReplicas, List.mem_cons, List.not_mem_nil, or_false]
    rintro r (rfl | rfl)
    · exact ⟨above "o-1" (by decide), above "1.stor" (by decide),
        above "owner" (by decide)⟩
    · exact ⟨above "o-1" (by decide), above "2.stor" (by decide)⟩

end Sample

end Wire
end Reclaim
