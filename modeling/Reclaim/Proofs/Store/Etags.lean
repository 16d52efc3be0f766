import Mathlib.Data.List.Basic
import Reclaim.Proofs.Json.Scan
import Reclaim.Store.Records

/-!
# Writes under a condition

Several clients read, write and delete records of the shards.  Each request is
served as a whole, so a history of the shards is a list of requests in some
order, with their answers.

A client may state the etag of the record it has read, so that its write is
refused if the record has changed.  The etag is the version of the record, and
versions begin again when a record is deleted and written anew.  Hence the
condition does not hold off every change: a record that has been deleted and
then written as often as its version counts has the old etag.

Main results: `version?_serve` for one request, `version?_serveAll` for a
history, and `conditional_write_accepted_iff` for a write that states an etag.
-/

namespace Reclaim
namespace Store

/-! ## Histories -/

/-- What a client asks of a record. -/
inductive Request
  | read
  | write (value : Json.Value) (etag : Option String)
  | delete

/-- A client asks something of the record in a slot. -/
structure Act where
  client : Nat
  slot : Slot
  request : Request

/-- A refusal, the record that was read, or nothing after a change. -/
abbrev Answer := Except Refusal (Option Stored)

namespace Services

/-- Serves a request. -/
def serve (s : Services) (a : Act) : Services × Answer :=
  match a.request with
  | .read =>
      let (s, answer) := s.readRecord a.slot
      (s, answer.map some)
  | .write value etag =>
      let (s, answer) := s.writeRecord a.slot value etag
      (s, answer.map fun _ => none)
  | .delete =>
      let (s, answer) := s.deleteRecord a.slot
      (s, answer.map fun _ => none)

/-- Serves requests in their order. -/
def serveAll (s : Services) : List Act → Services × List (Act × Answer)
  | [] => (s, [])
  | a :: as =>
      let (s, answer) := s.serve a
      let (s, rest) := s.serveAll as
      (s, (a, answer) :: rest)

/-- The version of the record in a slot, if there is one. -/
def version? (s : Services) (slot : Slot) : Option Nat :=
  (s.records.get? slot).map Stored.version

end Services

/-- A change of a record. -/
inductive Change
  | write
  | delete
  deriving DecidableEq

namespace Change

/-- The change that a request asks for. -/
def asked? : Request → Option Change
  | .read => none
  | .write .. => some write
  | .delete => some delete

/-- The change that an answered request has made to the record in a slot. -/
def ofServed? (slot : Slot) : Act × Answer → Option Change
  | (a, .ok _) => if a.slot = slot then asked? a.request else none
  | (_, .error _) => none

/-- The changes that a history has made to the record in a slot. -/
def ofHistory (slot : Slot) (served : List (Act × Answer)) : List Change :=
  served.filterMap (ofServed? slot)

/-- The version of a record after a change. -/
def next? (version : Option Nat) : Change → Option Nat
  | write => some (version.getD 0 + 1)
  | delete => none

/-- The changes end with a deletion and as many writes, at least one, as a version counts. -/
def BringBack (version : Nat) (changes : List Change) : Prop :=
  0 < version ∧
    ∃ earlier, changes = earlier ++ delete :: List.replicate version write

/-! ## Versions -/

section Versions

variable {version : Nat} {changes : List Change}

theorem foldl_next?_writes (start : Option Nat) (n : Nat) :
    (List.replicate (n + 1) write).foldl next? start = some (start.getD 0 + (n + 1)) := by
  induction n generalizing start with
  | zero => rfl
  | succ n ih =>
      rw [List.replicate_succ, List.foldl_cons, ih]
      simp only [next?, Option.getD_some]
      congr 1
      omega

/-- Changes are writes only, or a last deletion and writes. -/
theorem eq_writes_or_exists_last_delete (changes : List Change) :
    (∃ n, changes = List.replicate n write) ∨
      ∃ earlier n, changes = earlier ++ delete :: List.replicate n write := by
  induction changes with
  | nil => exact .inl ⟨0, rfl⟩
  | cons c cs ih =>
      rcases ih with ⟨n, rfl⟩ | ⟨earlier, n, rfl⟩
      · cases c with
        | write => exact .inl ⟨n + 1, rfl⟩
        | delete => exact .inr ⟨[], n, rfl⟩
      · exact .inr ⟨c :: earlier, n, rfl⟩

theorem foldl_next?_last_delete (start : Option Nat) (earlier rest : List Change) :
    (earlier ++ delete :: rest).foldl next? start = rest.foldl next? none := by
  rw [List.foldl_append, List.foldl_cons]
  rfl

/-- A record has its version again if it is unchanged, or if it has been brought back. -/
theorem foldl_next?_eq_iff :
    changes.foldl next? (some version) = some version ↔
      changes = [] ∨ BringBack version changes := by
  constructor
  · intro h
    rcases eq_writes_or_exists_last_delete changes with ⟨n, rfl⟩ | ⟨earlier, n, rfl⟩
    · cases n with
      | zero => exact .inl rfl
      | succ n =>
          rw [foldl_next?_writes] at h
          simp only [Option.getD_some, Option.some.injEq] at h
          omega
    · rw [foldl_next?_last_delete] at h
      cases n with
      | zero => cases h
      | succ n =>
          rw [foldl_next?_writes] at h
          simp only [Option.getD_none, Nat.zero_add, Option.some.injEq] at h
          subst h
          exact .inr ⟨Nat.succ_pos n, earlier, rfl⟩
  · rintro (rfl | ⟨hpos, earlier, rfl⟩)
    · rfl
    · obtain ⟨n, rfl⟩ := Nat.exists_eq_succ_of_ne_zero (Nat.ne_of_gt hpos)
      rw [foldl_next?_last_delete, foldl_next?_writes]
      simp

end Versions

end Change

/-! ## One request -/

section Serve

variable {s s' : Services} {acts : List Act} {slot : Slot} {r : Stored}

theorem records_readRecord (s : Services) (slot : Slot) :
    (s.readRecord slot).1.records = s.records := by
  unfold Services.readRecord
  cases s.refusal? slot.key with
  | some e => rfl
  | none => cases hr : (s.log (.readRecord slot)).records.get? slot <;> simp only [hr] <;> rfl

theorem writeRecord_cases (s : Services) (slot : Slot) (value : Json.Value)
    (etag : Option String) :
    (∃ t e, s.writeRecord slot value etag = (t, .error e) ∧ t.records = s.records) ∨
      ∃ t, s.writeRecord slot value etag = (t, .ok ()) ∧
        t.records = s.records.insert slot (s.recordAfterWrite slot value) := by
  unfold Services.writeRecord
  cases s.refusal? slot.key with
  | some e => exact .inl ⟨_, _, rfl, rfl⟩
  | none =>
      by_cases hfits : (s.log (.writeRecord slot)).etagFits slot etag = true
      · simp only [if_pos hfits]
        exact .inr ⟨_, rfl, rfl⟩
      · simp only [if_neg hfits]
        exact .inl ⟨_, _, rfl, rfl⟩

theorem deleteRecord_cases (s : Services) (slot : Slot) :
    (∃ t e, s.deleteRecord slot = (t, .error e) ∧ t.records = s.records) ∨
      ∃ t, s.deleteRecord slot = (t, .ok ()) ∧ t.records = s.records.erase slot := by
  unfold Services.deleteRecord
  simp only
  split
  · exact .inl ⟨_, _, rfl, rfl⟩
  · split
    · exact .inr ⟨_, rfl, rfl⟩
    · exact .inl ⟨_, _, rfl, rfl⟩

theorem version_recordAfterWrite (s : Services) (slot : Slot) (value : Json.Value) :
    some (s.recordAfterWrite slot value).version =
      Change.next? (s.version? slot) .write := by
  unfold Services.recordAfterWrite Services.version?
  cases s.records.get? slot <;> rfl

theorem refusal?_congr (h : s'.failures = s.failures) (target : String) :
    s'.refusal? target = s.refusal? target := by
  rw [Services.refusal?, Services.refusal?, h]

theorem version?_congr (h : s'.records = s.records) (slot : Slot) :
    s'.version? slot = s.version? slot := by
  rw [Services.version?, Services.version?, h]

/-- A request changes the version of a record as its change says, if it makes one. -/
theorem version?_serve (s : Services) (a : Act) (slot : Slot) :
    (s.serve a).1.version? slot =
      (Change.ofServed? slot (a, (s.serve a).2)).toList.foldl Change.next?
        (s.version? slot) := by
  obtain ⟨client, place, request⟩ := a
  cases request with
  | read =>
      have hversion := version?_congr (records_readRecord s place) slot
      cases hanswer : (s.readRecord place).2 <;>
        simp [Services.serve, hanswer, hversion, Except.map, Change.ofServed?, Change.asked?]
  | write value etag =>
      rcases writeRecord_cases s place value etag with ⟨t, e, hw, ht⟩ | ⟨t, hw, ht⟩
      · simpa [Services.serve, hw, Except.map, Change.ofServed?] using version?_congr ht slot
      · by_cases hplace : place = slot
        · subst hplace
          simpa [Services.serve, hw, Except.map, Change.ofServed?, Change.asked?,
            Services.version?, ht, Sorted.SortedMap.get?_insert]
            using version_recordAfterWrite s place value
        · simp [Services.serve, hw, Except.map, Change.ofServed?, hplace,
            Services.version?, ht, Sorted.SortedMap.get?_insert, Ne.symm hplace]
  | delete =>
      rcases deleteRecord_cases s place with ⟨t, e, hd, ht⟩ | ⟨t, hd, ht⟩
      · simpa [Services.serve, hd, Except.map, Change.ofServed?] using version?_congr ht slot
      · by_cases hplace : place = slot
        · subst hplace
          simp [Services.serve, hd, Except.map, Change.ofServed?, Change.asked?,
            Change.next?, Services.version?, ht, Sorted.SortedMap.get?_erase]
        · simp [Services.serve, hd, Except.map, Change.ofServed?, hplace,
            Services.version?, ht, Sorted.SortedMap.get?_erase, Ne.symm hplace]

theorem failures_serve (s : Services) (a : Act) :
    (s.serve a).1.failures = s.failures := by
  obtain ⟨client, place, request⟩ := a
  cases request with
  | read =>
      simp only [Services.serve, Services.readRecord]
      split
      · rfl
      · split <;> rfl
  | write value etag =>
      simp only [Services.serve, Services.writeRecord]
      split
      · rfl
      · split <;> rfl
  | delete =>
      simp only [Services.serve, Services.deleteRecord]
      split
      · rfl
      · split <;> rfl

/-- After a read, the record that was read is there, and its slot is not refused. -/
theorem of_serve_read {client : Nat}
    (h : (s.serve ⟨client, slot, .read⟩).2 = .ok (some r)) :
    (s.serve ⟨client, slot, .read⟩).1.refusal? slot.key = none ∧
      (s.serve ⟨client, slot, .read⟩).1.version? slot = some r.version := by
  rw [refusal?_congr (failures_serve s _), Services.serve,
    version?_congr (records_readRecord s slot)]
  simp only [Services.serve, Services.readRecord] at h
  split at h
  · cases h
  · next hrefusal =>
      split at h
      · next found hfound =>
          obtain rfl := Option.some.inj (Except.ok.inj h)
          exact ⟨hrefusal, congrArg (Option.map Stored.version) hfound⟩
      · cases h

theorem etag_inj {r' : Stored} : r.etag = r'.etag ↔ r.version = r'.version := by
  constructor
  · intro h
    have hdigits : Nat.toDigits 10 r.version = Nat.toDigits 10 r'.version :=
      String.ofList_injective h
    have hvalue := congrArg Text.decimalValue hdigits
    rwa [Json.decimalValue_toDigits, Json.decimalValue_toDigits] at hvalue
  · intro h
    rw [Stored.etag, Stored.etag, h]

/-- A write that states an etag is accepted just if the record has the version of that etag. -/
theorem serve_write_etag {client : Nat} {value : Json.Value}
    (hrefusal : s.refusal? slot.key = none) :
    (s.serve ⟨client, slot, .write value (some r.etag)⟩).2 =
      if s.version? slot = some r.version then .ok none
      else .error (.etagConflict slot.key) := by
  have hfits : (s.log (.writeRecord slot)).etagFits slot (some r.etag) = true ↔
      s.version? slot = some r.version := by
    simp only [Services.etagFits, Services.version?, Services.log, decide_eq_true_eq,
      Option.map_eq_some_iff, etag_inj]
  simp only [Services.serve, Services.writeRecord, hrefusal]
  by_cases hversion : s.version? slot = some r.version
  · rw [if_pos (hfits.2 hversion), if_pos hversion]
    rfl
  · rw [if_neg (mt hfits.1 hversion), if_neg hversion]
    rfl

/-! ## Histories of requests -/

theorem version?_serveAll (s : Services) (acts : List Act) (slot : Slot) :
    (s.serveAll acts).1.version? slot =
      (Change.ofHistory slot (s.serveAll acts).2).foldl Change.next? (s.version? slot) := by
  induction acts generalizing s with
  | nil => rfl
  | cons a as ih =>
      simp only [Services.serveAll, Change.ofHistory, List.filterMap_eq_flatMap_toList,
        List.flatMap_cons, List.foldl_append] at ih ⊢
      rw [ih, version?_serve]

theorem failures_serveAll (s : Services) (acts : List Act) :
    (s.serveAll acts).1.failures = s.failures := by
  induction acts generalizing s with
  | nil => rfl
  | cons a as ih => exact (ih _).trans (failures_serve s a)

theorem exists_of_serveAll_eq_cons {p : Act × Answer} {rest : List (Act × Answer)}
    (h : (s.serveAll acts).2 = p :: rest) :
    p.2 = (s.serve p.1).2 ∧ ∃ as, ((s.serve p.1).1.serveAll as).2 = rest := by
  cases acts with
  | nil => cases h
  | cons a as =>
      obtain ⟨rfl, rfl⟩ := List.cons.inj h
      exact ⟨rfl, as, rfl⟩

theorem exists_of_serveAll_eq_append {first rest : List (Act × Answer)}
    (h : (s.serveAll acts).2 = first ++ rest) :
    ∃ as as', (s.serveAll as).2 = first ∧ ((s.serveAll as).1.serveAll as').2 = rest := by
  induction first generalizing s acts with
  | nil => exact ⟨[], acts, rfl, h⟩
  | cons p first ih =>
      obtain ⟨hp, as, has⟩ := exists_of_serveAll_eq_cons h
      obtain ⟨as₁, as₂, hfirst, hrest⟩ := ih has
      refine ⟨p.1 :: as₁, as₂, ?_, hrest⟩
      simp only [Services.serveAll, hfirst, ← hp]

/--
A write that states the etag of a record that was read before is accepted if and
only if the record has not been changed since, or has been deleted since and
then written just as often as its version counts.  Otherwise there is a conflict.
-/
theorem conditional_write_accepted_iff
    {before between after : List (Act × Answer)} {reader writer : Nat}
    {value : Json.Value} {answer : Answer}
    (h : (s.serveAll acts).2 =
      before ++ (⟨reader, slot, .read⟩, .ok (some r)) ::
        (between ++ (⟨writer, slot, .write value (some r.etag)⟩, answer) :: after)) :
    (answer = .ok none ∨ answer = .error (.etagConflict slot.key)) ∧
      (answer = .ok none ↔
        Change.ofHistory slot between = [] ∨
          Change.BringBack r.version (Change.ofHistory slot between)) := by
  obtain ⟨acts₁, acts₂, -, h⟩ := exists_of_serveAll_eq_append h
  obtain ⟨hread, acts₃, h⟩ := exists_of_serveAll_eq_cons h
  obtain ⟨acts₄, acts₅, hbetween, h⟩ := exists_of_serveAll_eq_append h
  obtain ⟨hwrite, -⟩ := exists_of_serveAll_eq_cons h
  obtain ⟨hrefusal, hversion⟩ := of_serve_read hread.symm
  rw [serve_write_etag ((refusal?_congr (failures_serveAll _ acts₄) _).trans hrefusal),
    version?_serveAll, hversion, hbetween] at hwrite
  obtain rfl := hwrite
  rw [← Change.foldl_next?_eq_iff]
  split
  · next hback => exact ⟨.inl rfl, fun _ => hback, fun _ => rfl⟩
  · next hback => exact ⟨.inr rfl, fun h => (by cases h), fun h => absurd h hback⟩

end Serve

section Recreation

def sampleSlot : Slot :=
  ⟨"1", "b", "k"⟩

/-- What happens between the read and the write of a client. -/
def recreation : List (Act × Answer) :=
  [(⟨1, sampleSlot, .delete⟩, .ok none),
    (⟨1, sampleSlot, .write (.bool true) none⟩, .ok none)]

/-- Another client deletes and writes anew the record that the first client has read. -/
def recreationActs : List Act :=
  [⟨0, sampleSlot, .write .null none⟩, ⟨0, sampleSlot, .read⟩,
    ⟨1, sampleSlot, .delete⟩, ⟨1, sampleSlot, .write (.bool true) none⟩,
    ⟨0, sampleSlot, .write (.bool false) (some "1")⟩]

theorem serveAll_recreationActs :
    (Services.serveAll {} recreationActs).2 =
      [(⟨0, sampleSlot, .write .null none⟩, .ok none)] ++
        (⟨0, sampleSlot, .read⟩, .ok (some ⟨.null, 1⟩)) ::
          (recreation ++
            [(⟨0, sampleSlot, .write (.bool false) (some (Stored.etag ⟨.null, 1⟩))⟩,
              .ok none)]) := by
  rfl

theorem conditional_write_of_recreation :
    Change.ofHistory sampleSlot recreation = [] ∨
      Change.BringBack 1 (Change.ofHistory sampleSlot recreation) :=
  (conditional_write_accepted_iff serveAll_recreationActs).2.1 rfl

/-- An accepted write may undo a change that its client has not seen. -/
theorem not_unchanged_of_conditional_write_accepted :
    ¬ ∀ (s : Services) (acts : List Act) (before between after : List (Act × Answer))
        (reader writer : Nat) (slot : Slot) (r : Stored) (value : Json.Value),
      (s.serveAll acts).2 =
          before ++ (⟨reader, slot, .read⟩, .ok (some r)) ::
            (between ++ (⟨writer, slot, .write value (some r.etag)⟩, .ok none) :: after) →
        Change.ofHistory slot between = [] := by
  intro h
  have hnone := h _ _ _ _ _ _ _ _ _ _ serveAll_recreationActs
  cases hnone

end Recreation

end Store
end Reclaim
