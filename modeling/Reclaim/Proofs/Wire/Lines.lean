import Reclaim.Audit.Row
import Reclaim.Cruft.Row
import Reclaim.Object.Row
import Reclaim.Placement.Row
import Reclaim.Proofs.Json.Printed
import Reclaim.Proofs.Text.Fields
import Reclaim.Proofs.Time.Timestamp
import Reclaim.Upload.Record

/-!
# What is read of a written line

Each of the five formats splits a line into the fields that its row was written
with, if those hold no tab that the split would see.  What is read then depends
on the date and on the payload or the metadata alone.

Main results: `parse_line` of each type of row.
-/

namespace Reclaim

namespace Text

/-- The separator of fields. -/
abbrev tab : Char := '\t'

theorem Printable.tab_not_mem {s : List Char} (h : Printable s) : tab ∉ s :=
  h.not_mem (by decide)

end Text

namespace Time
namespace Instant

open Text

theorem printable_fixedDigits (width n : Nat) :
    Printable (fixedDigits width n) :=
  printable_of_digits fun _ => isDigit_of_mem_fixedDigits

theorem printable_yearDigits (year : Int) : Printable (yearDigits year) := by
  rw [yearDigits]
  split
  · exact printable_fixedDigits _ _
  · simp only [printable_cons, printable_append]
    exact ⟨by split <;> decide, printable_replicate (by decide) _,
      printable_toString_nat _⟩

/-- The fixed form of a date contains no control characters. -/
theorem printable_text (t : Instant) : Printable t.text.toList := by
  simp only [text, String.toList_ofList, textChars, wholeSeconds,
    printable_append, printable_cons, printable_fixedDigits,
    printable_yearDigits, printable_nil, and_true, true_and]
  decide

/-- The instant falls on a whole millisecond. -/
def IsWholeMilli (t : Instant) : Prop :=
  t.nanos % 1000000 = 0

instance (t : Instant) : Decidable t.IsWholeMilli :=
  inferInstanceAs (Decidable (_ = _))

theorem truncateToMillis_of_isWholeMilli {t : Instant} (h : t.IsWholeMilli) :
    t.truncateToMillis = t := by
  obtain ⟨seconds, nanos, _, _⟩ := t
  simp only [IsWholeMilli] at h
  simp only [truncateToMillis, mk.injEq, true_and]
  omega

end Instant
end Time

namespace Object

namespace State

/-- The state that is read of a written one: the payload of a tombstone is parsed. -/
def reread : State → Except Defect State
  | live => .ok live
  | dead payload shard =>
      match Json.parse payload.text with
      | .ok v => .ok (dead v shard)
      | .error e => .error (.invalidPayload e)

theorem tag_of_reread {s s' : State} (h : s.reread = .ok s') :
    s'.tag = s.tag := by
  cases s with
  | live =>
      cases h
      rfl
  | dead payload shard =>
      simp only [reread] at h
      split at h
      · cases h
        rfl
      · cases h

end State

namespace Row

theorem stateOf_live : stateOf ["live"] = State.live.reread := rfl

theorem stateOf_dead (payload : Json.Value) (shard : String) :
    stateOf ["dead", payload.text, shard] =
      (State.dead payload shard).reread := rfl

/-- The fields of a line of an object's history are found again. -/
theorem fieldsAtMost_line (r : Row) (id : Text.tab ∉ r.objectId.toList) :
    Text.fieldsAtMost Text.tab 5 r.line = r.fields := by
  have date := (r.date.printable_text).tab_not_mem
  rw [line, fields]
  split
  · refine Text.fieldsAtMost_join_of_le Text.tab 5 _ (by simp) (by simp) ?_
    simp only [List.mem_cons, List.not_mem_nil, or_false]
    rintro f (rfl | rfl | rfl)
    · exact id
    · exact date
    · decide
  · next payload shard _ =>
      refine Text.fieldsAtMost_join Text.tab [_, _, _, _] shard ?_
      simp only [List.mem_cons, List.not_mem_nil, or_false]
      rintro f (rfl | rfl | rfl | rfl)
      · exact id
      · exact date
      · decide
      · exact (Json.printable_text payload).tab_not_mem

theorem parse_of_fields
    {line objectId date kind : String} {rest : List String}
    (h : Text.fieldsAtMost Text.tab 5 line = objectId :: date :: kind :: rest) :
    parse line =
      if objectId.isEmpty then .error .emptyObjectId
      else
        match Time.Instant.parse? date with
        | none => .error (.invalidTimestamp date)
        | some t => (stateOf (kind :: rest)).map fun s => ⟨objectId, t, s⟩ := by
  rw [parse, h]
  dsimp only
  cases Time.Instant.parse? date with
  | none => rfl
  | some t => cases stateOf (kind :: rest) <;> rfl

/-- A line of an object's history is read as its object, its date and its state. -/
theorem parse_line (r : Row) (id : Text.tab ∉ r.objectId.toList) :
    parse r.line =
      if r.objectId.isEmpty then .error .emptyObjectId
      else
        match Time.Instant.parse? r.date.text with
        | none => .error (.invalidTimestamp r.date.text)
        | some t => r.state.reread.map fun s => ⟨r.objectId, t, s⟩ := by
  have split := r.fieldsAtMost_line id
  rw [fields] at split
  cases hs : r.state with
  | live =>
      rw [hs] at split
      rw [parse_of_fields split, stateOf_live]
  | dead payload shard =>
      rw [hs] at split
      rw [parse_of_fields split, stateOf_dead]

end Row
end Object

namespace Uuid

/-- The hyphenated form contains no control characters. -/
theorem printable_text (u : Uuid) : Text.Printable u.text.toList := by
  have digits : Text.Printable u.characters := by
    simp only [characters, Text.Printable, List.mem_map]
    rintro c ⟨d, -, rfl⟩
    exact Json.printable_hexDigit d.isLt
  have part : ∀ m n, Text.Printable ((u.characters.drop m).take n) :=
    fun m n => digits.mono fun c hc =>
      List.mem_of_mem_drop (List.mem_of_mem_take hc)
  have first := digits.mono (List.take_subset 8 _)
  have last := digits.mono (List.drop_subset 20 _)
  simp only [text, String.toList_ofList, textChars, Text.printable_append,
    Text.printable_cons, part, first, last, and_true, true_and]
  decide

end Uuid

namespace Upload
namespace Record

/-- The record at another date. -/
def atDate (r : Record) (t : Time.Instant) : Record :=
  match r with
  | finalizing f => finalizing { f with date := t }
  | live l => live { l with date := t }

/-- No tab stands behind the key of a finalizing record. -/
def TabsInKey : Record → Prop
  | finalizing f => Text.tab ∉ f.shard.toList
  | live _ => True

theorem parse_of_fields
    {line upload tag date rest : String} {u : Uuid}
    (h : Text.fieldsAtMost Text.tab 4 line = [upload, tag, date, rest])
    (hu : Uuid.parse? upload = some u) :
    parse line =
      match Time.Instant.parse? date with
      | none => .error (.invalidTimestamp date)
      | some t => parseRest u t tag rest := by
  cases hdate : Time.Instant.parse? date with
  | none => simp only [parse, h, hu, hdate]
  | some t => simp only [parse, h, hu, hdate]

/-- The key, the shard and the outcome of a finalizing record are found again. -/
theorem parseRest_finalizing
    (u : Uuid) (t : Time.Instant) (f : Finalizing)
    (shard : Text.tab ∉ f.shard.toList) :
    parseRest u t "0" (Text.join Text.tab [f.key, f.shard, f.outcome.text]) =
      .ok (.finalizing ⟨u, f.key, f.shard, t, f.outcome⟩) := by
  have outcome : Text.tab ∉ f.outcome.text.toList := by
    cases f.outcome <;> decide
  have split := Text.fieldsAtMostFromEnd_join Text.tab f.key
    [f.shard, f.outcome.text] (by simp [shard, outcome])
  rw [parseRest, if_pos rfl]
  rw [show [f.shard, f.outcome.text].length + 1 = 3 from rfl] at split
  rw [split]
  cases f.outcome <;> rfl

/-- Upload, tag and date of a record are found again, with what stands behind them. -/
theorem fieldsAtMost_line
    (r : Record) (fs : List String) (hne : fs ≠ [])
    (h : r.fields = [r.upload.text, toString r.tag, r.date.text] ++ fs) :
    Text.fieldsAtMost Text.tab 4 r.line =
      [r.upload.text, toString r.tag, r.date.text, Text.join Text.tab fs] := by
  rw [line, h, ← Text.join_append_join Text.tab _ hne]
  refine Text.fieldsAtMost_join Text.tab [_, _, _] _ ?_
  simp only [List.mem_cons, List.not_mem_nil, or_false]
  rintro g (rfl | rfl | rfl)
  · exact r.upload.printable_text.tab_not_mem
  · exact (Text.printable_toString_nat r.tag).tab_not_mem
  · exact r.date.printable_text.tab_not_mem

theorem tag_texts :
    toString (0 : Nat) = "0" ∧ toString (1 : Nat) = "1" ∧
      toString (2 : Nat) = "2" :=
  ⟨rfl, rfl, rfl⟩

/-- A line of an upload record is read as the record at the date that is read. -/
theorem parse_line (r : Record) (tabs : r.TabsInKey) :
    parse r.line =
      match Time.Instant.parse? r.date.text with
      | none => .error (.invalidTimestamp r.date.text)
      | some t => .ok (r.atDate t) := by
  obtain ⟨zero, one, two⟩ := tag_texts
  cases r with
  | finalizing f =>
      have split := (finalizing f).fieldsAtMost_line
        [f.key, f.shard, f.outcome.text] (by simp) rfl
      rw [parse_of_fields split (Uuid.parse?_text f.upload), tag, zero]
      generalize Time.Instant.parse? (finalizing f).date.text = read
      cases read with
      | none => rfl
      | some t => exact parseRest_finalizing f.upload t f tabs
  | live l =>
      have split := (live l).fieldsAtMost_line [l.key] (by simp) rfl
      have joined : Text.join Text.tab [l.key] = l.key := by
        rw [← String.toList_inj, Text.toList_join_singleton]
      rw [parse_of_fields split (Uuid.parse?_text l.upload), joined]
      generalize Time.Instant.parse? (live l).date.text = read
      obtain ⟨_, _, _, kind⟩ := l
      cases read with
      | none => rfl
      | some t =>
          cases kind with
          | directory =>
              rw [tag, one]
              rfl
          | part =>
              rw [tag, two]
              rfl

end Record
end Upload
namespace Cruft
namespace Row

/-- The separator stands in no field of the row. -/
def NoTabs : Row → Prop
  | stored objectId storageId owner _ =>
      Text.tab ∉ objectId.toList ∧ Text.tab ∉ storageId.toList ∧
        Text.tab ∉ owner.toList
  | reference objectId => Text.tab ∉ objectId.toList

/-- A line of the search for cruft is read as the row at the date that is read. -/
theorem parse_line_stored
    {objectId storageId owner : String} {date : Time.Instant}
    (tabs : (stored objectId storageId owner date).NoTabs) :
    parse (stored objectId storageId owner date).line =
      match Time.Instant.parse? date.text with
      | none => .error (.invalidTimestamp date.text)
      | some t => .ok (.stored objectId storageId owner t) := by
  obtain ⟨hid, hstorage, howner⟩ := tabs
  have split := Text.fields_join Text.tab
    [objectId, "mako", storageId, owner, date.text] (by simp) (by
      simp only [List.mem_cons, List.not_mem_nil, or_false]
      rintro f (rfl | rfl | rfl | rfl | rfl)
      · exact hid
      · decide
      · exact hstorage
      · exact howner
      · exact date.printable_text.tab_not_mem)
  rw [line, parse, split]
  dsimp only
  rw [if_pos rfl]
  cases Time.Instant.parse? date.text <;> rfl

theorem parse_line_reference
    {objectId : String} (tabs : (reference objectId).NoTabs) :
    parse (reference objectId).line = .ok (.reference objectId) := by
  have split := Text.fields_join Text.tab [objectId, "moray"] (by simp) (by
      simp only [List.mem_cons, List.not_mem_nil, or_false]
      rintro f (rfl | rfl)
      · exact tabs
      · decide)
  rw [line, parse, split]
  rfl

end Row
end Cruft

namespace Audit
namespace Row

/-- The separator stands in no field of the row but the key. -/
def TabsInKey : Row → Prop
  | stored objectId storageId =>
      Text.tab ∉ objectId.toList ∧ Text.tab ∉ storageId.toList
  | expected objectId storageId owner _ =>
      Text.tab ∉ objectId.toList ∧ Text.tab ∉ storageId.toList ∧
        Text.tab ∉ owner.toList

/-- A line of the audit is read as its row. -/
theorem parse_line (r : Row) (tabs : r.TabsInKey) : parse r.line = .ok r := by
  cases r with
  | stored objectId storageId =>
      obtain ⟨hid, hstorage⟩ := tabs
      have split := Text.fieldsAtMost_join_of_le Text.tab 5
        [objectId, "mako", storageId] (by simp) (by simp) (by
          simp only [List.mem_cons, List.not_mem_nil, or_false]
          rintro f (rfl | rfl | rfl)
          · exact hid
          · decide
          · exact hstorage)
      rw [line, parse, split]
      rfl
  | expected objectId storageId owner key =>
      obtain ⟨hid, hstorage, howner⟩ := tabs
      have split := Text.fieldsAtMost_join Text.tab
        [objectId, "moray", storageId, owner] key (by
          simp only [List.mem_cons, List.not_mem_nil, or_false]
          rintro f (rfl | rfl | rfl | rfl)
          · exact hid
          · decide
          · exact hstorage
          · exact howner)
      rw [line, parse]
      simp only [List.length_cons, List.length_nil, List.cons_append,
        List.nil_append] at split
      rw [split]
      rfl

end Row
end Audit

namespace Placement
namespace Row

/-- A line for the placement of replicas is read as its object with the metadata that is read. -/
theorem parse_line
    (r : Row) (id : Text.tab ∉ r.objectId.toList)
    (shard : Text.tab ∉ r.shard.toList) :
    parse r.line =
      match Metadata.codec.ofText r.metadata.text with
      | .ok m => .ok ⟨r.objectId, r.shard, m⟩
      | .error e => .error (.invalidRowMetadata e) := by
  have split := Text.fieldsAtMost_join Text.tab
    [r.objectId, r.shard] r.metadata.text (by simp [id, shard])
  simp only [List.length_cons, List.length_nil, List.cons_append,
    List.nil_append] at split
  cases hm : Metadata.codec.ofText r.metadata.text with
  | error e => simp only [parse, line, split, hm]
  | ok m => simp only [parse, line, split, hm]

end Row
end Placement
end Reclaim
