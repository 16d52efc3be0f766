import Reclaim.Proofs.Stream.Refusals
import Reclaim.Proofs.Upload.Batches

/-!
# Records of uploads that are refused

The batcher checks two things: that the batch of a record is not closed, and
that the record does not come before the last one.  Since the records it takes
are in order, a record whose batch is closed comes before the last one too, so
that both checks together refuse exactly the records out of order.  A record
that is refused is counted as a record and leaves no other trace.

Main results: `guardsOrder_collector` and `traceless_collector`.
-/

namespace Reclaim
namespace Upload

/-- The uploads whose batches are closed: all but the upload of the last record. -/
def closedUploads (records : List Record) : List Uuid :=
  match records.getLast? with
  | none => []
  | some last =>
      uploads (Stream.rowsExcept Record.upload last.upload records)

/-- The fault of a record that comes before the last one of those taken. -/
def refusal (before : List Record) (last r : Record) : Fault :=
  if r.upload ∈ closedUploads before then .uploadReappeared r.upload
  else Stream.Guard.refusal Record.sortKey last r

theorem mem_closedUploads {records : List Record} {u : Uuid} :
    u ∈ closedUploads records ↔
      ∃ last ∈ records.getLast?, u ≠ last.upload ∧
        ∃ r ∈ records, r.upload = u := by
  unfold closedUploads
  cases records.getLast? with
  | none => simp
  | some last =>
      simp only [Stream.mem_names, Stream.rowsExcept, List.mem_filter,
        Option.mem_some_iff, decide_eq_true_eq, exists_eq_left']
      constructor
      · rintro ⟨r, ⟨hr, hne⟩, rfl⟩
        exact ⟨hne, r, hr, rfl⟩
      · rintro ⟨hne, r, hr, rfl⟩
        exact ⟨r, ⟨hr, hne⟩, rfl⟩

/-- The closed uploads after one more record. -/
theorem mem_closedUploads_concat
    {records : List Record} {r : Record} {u : Uuid} :
    u ∈ closedUploads (records ++ [r]) ↔
      u ≠ r.upload ∧ ∃ x ∈ records, x.upload = u := by
  simp only [mem_closedUploads, List.getLast?_concat,
    Option.mem_some_iff, exists_eq_left', List.mem_append, List.mem_singleton]
  constructor
  · rintro ⟨hne, x, hx | rfl, rfl⟩
    · exact ⟨hne, x, hx, rfl⟩
    · exact absurd rfl hne
  · rintro ⟨hne, x, hx, rfl⟩
    exact ⟨hne, x, .inl hx, rfl⟩

namespace Batcher

/-- A batcher that has taken records. -/
structure Seen (records : List Record) (b : Batcher) : Prop where
  guard : b.guard.Seen Record.sortKey records
  current : b.current.map Batch.upload = records.getLast?.map Record.upload
  closed : ∀ u, u ∈ b.closed ↔ u ∈ closedUploads records

section Push

variable {b b' : Batcher} {records : List Record} {r : Record}
variable {out : Option Batch}

theorem seen_start : start.Seen [] :=
  ⟨Stream.Guard.seen_start, rfl, fun _ => Iff.rfl⟩

/-- A record that is taken was in no closed batch, and its key is let through. -/
theorem of_push (h : b.push r = .ok (b', out)) :
    r.upload ∉ b.closed ∧ ∃ guard, b.guard.accept r.sortKey = .ok guard ∧
      b' = ({ b with guard := guard }.take r).1 := by
  unfold push at h
  split at h
  · cases h
  · next hopen =>
      split at h
      · cases h
      · next guard haccept =>
          exact ⟨hopen, guard, haccept,
            (congrArg Prod.fst (Except.ok.inj h)).symm⟩

theorem guard_take (b : Batcher) (r : Record) :
    (b.take r).1.guard = b.guard := by
  unfold take
  split
  · rfl
  · split <;> rfl

theorem current_take (b : Batcher) (r : Record) :
    (b.take r).1.current.map Batch.upload = some r.upload := by
  unfold take
  split
  · rfl
  · split
    · next h => exact congrArg some h
    · rfl

/-- A record of another upload closes the batch that is open. -/
theorem mem_closed_take (b : Batcher) (r : Record) (u : Uuid) :
    u ∈ (b.take r).1.closed ↔
      u ∈ b.closed ∨ (u ≠ r.upload ∧ b.current.map Batch.upload = some u) := by
  unfold take
  split
  · next hnone => simp [hnone]
  · next batch hsome =>
      simp only [hsome, Option.map_some, Option.some.injEq]
      split
      · next hsame =>
          refine ⟨.inl, ?_⟩
          rintro (hu | ⟨hne, rfl⟩)
          · exact hu
          · exact absurd hsame hne
      · next hother =>
          rw [List.mem_cons]
          constructor
          · rintro (rfl | hu)
            · exact .inr ⟨hother, rfl⟩
            · exact .inl hu
          · rintro (hu | ⟨-, rfl⟩)
            · exact .inr hu
            · exact .inl rfl

theorem Seen.push
    (hb : b.Seen records) (h : b.push r = .ok (b', out)) :
    b'.Seen (records ++ [r]) := by
  obtain ⟨hopen, guard, haccept, rfl⟩ := of_push h
  refine ⟨?_, ?_, ?_⟩
  · rw [guard_take]
    exact hb.guard.accept haccept
  · rw [current_take, List.getLast?_concat, Option.map_some]
  · intro u
    rw [mem_closed_take, mem_closedUploads_concat]
    simp only [hb.current, hb.closed, mem_closedUploads] at hopen ⊢
    -- An upload seen before is the one that is open, or its batch is closed.
    constructor
    · rintro (⟨last, hlast, hne, x, hx, rfl⟩ | ⟨hne, hlast⟩)
      · refine ⟨fun heq => ?_, x, hx, rfl⟩
        rw [heq] at hne
        exact hopen ⟨last, hlast, hne, x, hx, heq⟩
      · obtain ⟨last, hmem, rfl⟩ := Option.map_eq_some_iff.1 hlast
        exact ⟨hne, last, List.mem_of_getLast? hmem, rfl⟩
    · rintro ⟨hne, x, hx, rfl⟩
      obtain ⟨last, hlast⟩ := Option.isSome_iff_exists.1
        (List.getLast?_isSome.2 (List.ne_nil_of_mem hx))
      by_cases hopenU : x.upload = last.upload
      · exact .inr ⟨hne, by rw [hlast, hopenU]; rfl⟩
      · exact .inl ⟨last, hlast, hopenU, x, hx, rfl⟩

/-- A record of an upload whose batch is closed comes before the last record. -/
theorem Seen.lt_of_closed
    (hb : b.Seen records) {last : Record} (hlast : last ∈ records.getLast?)
    (hclosed : r.upload ∈ closedUploads records) :
    compare r.sortKey last.sortKey = .lt := by
  obtain ⟨last', hlast', hne, x, hx, hupload⟩ := mem_closedUploads.1 hclosed
  obtain rfl := Option.mem_unique hlast' hlast
  have hle := uploads_follow_keys x last' (hb.guard.inOrder.le_getLast hx hlast)
  rw [hupload] at hle
  have hlt : compare r.upload last'.upload = .lt := by
    rcases Ordering.isLE_iff_eq_lt_or_eq_eq.1 hle with hlt | heq
    · exact hlt
    · exact absurd (Std.LawfulEqOrd.eq_of_compare heq) hne
  exact congrArg (Ordering.then · _) hlt

/-- The two checks together refuse exactly the records out of order. -/
theorem Seen.push_eq_error_iff (hb : b.Seen records) {fault : Fault} :
    b.push r = .error fault ↔
      ∃ last ∈ records.getLast?, compare r.sortKey last.sortKey = .lt ∧
        fault = refusal records last r := by
  unfold Batcher.push
  simp only [hb.closed]
  by_cases hclosed : r.upload ∈ closedUploads records
  · obtain ⟨last, hlast, -⟩ := mem_closedUploads.1 hclosed
    simp only [hclosed, if_true, Except.error.injEq, refusal]
    constructor
    · rintro rfl
      exact ⟨last, hlast, hb.lt_of_closed hlast hclosed, rfl⟩
    · rintro ⟨-, -, -, rfl⟩
      rfl
  · simp only [hclosed, if_false, refusal]
    rw [← hb.guard.accept_eq_error_iff]
    cases b.guard.accept r.sortKey with
    | error f => simp
    | ok guard => simp

end Push

end Batcher

section Collector

variable {policy : GracePolicy} {c d : Collector} {r : Record}

/-- A collector without its count of records. -/
def Collector.withoutRecords (c : Collector) : Batcher × Counts :=
  (c.batcher, { c.counts with records := 0 })

theorem exists_of_withoutRecords (h : c.withoutRecords = d.withoutRecords) :
    ∃ k, d = { c with counts := { c.counts with records := k } } := by
  obtain ⟨hbatcher, hcounts⟩ := Prod.ext_iff.1 h
  have hd := congrArg
    (fun n : Counts => { n with records := d.counts.records }) hcounts
  exact ⟨d.counts.records,
    congr (congrArg Collector.mk hbatcher.symm) hd.symm⟩

theorem offer_eq_error_iff_push {fault : Fault} :
    ((collector policy).offer c r).2 = .error fault ↔
      c.batcher.push r = .error fault := by
  simp only [collector, Stream.Engine.thenEach, batches, Collector.offer]
  cases c.batcher.push r with
  | error f => simp [Except.map]
  | ok pushed => simp [Except.map]

theorem batcher_of_offer {actions : List Record}
    (h : ((collector policy).offer c r).2 = .ok actions) :
    ∃ out, c.batcher.push r =
      .ok (((collector policy).offer c r).1.batcher, out) := by
  simp only [collector, Stream.Engine.thenEach, batches, Collector.offer] at h ⊢
  cases hpush : c.batcher.push r with
  | error f => simp [hpush, Except.map] at h
  | ok pushed => exact ⟨pushed.2, rfl⟩

/-- A refused record is counted as a record, and that is all. -/
theorem offer_of_refused {fault : Fault}
    (h : ((collector policy).offer c r).2 = .error fault) :
    ((collector policy).offer c r).1 =
      { c with counts := { c.counts with records := c.counts.records + 1 } } := by
  have hpush := offer_eq_error_iff_push.1 h
  simp only [collector, Stream.Engine.thenEach, batches, Collector.offer,
    hpush]

/-- What comes of a closed batch does not depend on the count of records. -/
theorem judgeClosed_records
    (policy : GracePolicy) (n : Counts) (k : Nat) (closed : Option Batch) :
    Collector.judgeClosed policy { n with records := k } closed =
      ({ (Collector.judgeClosed policy n closed).1 with records := k },
        (Collector.judgeClosed policy n closed).2) := by
  cases closed with
  | none => rfl
  | some batch =>
      simp only [Collector.judgeClosed, Collector.judge]
      cases batch.verify with
      | error f => rfl
      | ok v =>
          simp only
          split
          · rfl
          · split <;> rfl

theorem records_judgeClosed
    (policy : GracePolicy) (n : Counts) (closed : Option Batch) :
    (Collector.judgeClosed policy n closed).1.records = n.records :=
  congrArg (fun m : Counts × Option Verified => m.1.records)
    (judgeClosed_records policy n n.records closed)

/-- Every record that is offered is counted. -/
theorem records_offer (policy : GracePolicy) (c : Collector) (r : Record) :
    ((collector policy).offer c r).1.counts.records = c.counts.records + 1 := by
  simp only [collector, Stream.Engine.thenEach, batches, Collector.offer]
  cases c.batcher.push r with
  | error f => rfl
  | ok pushed => exact records_judgeClosed policy _ pushed.2

theorem records_feedThrough
    (policy : GracePolicy) (c : Collector) (records : List Record) :
    ((collector policy).feedThrough c records).1.counts.records =
      c.counts.records + records.length := by
  induction records generalizing c with
  | nil => rfl
  | cons r rs ih =>
      have hcount := records_offer policy c r
      rw [List.length_cons, Nat.add_comm rs.length, ← Nat.add_assoc, ← hcount]
      cases step : (collector policy).offer c r with
      | mk c' answer =>
          cases answer with
          | error f => simpa only [Stream.Engine.feedThrough, step] using ih c'
          | ok first => simpa only [Stream.Engine.feedThrough, step] using ih c'

/-- At the end, the count of records is that of all records, refused ones among them. -/
theorem records_endAfter (policy : GracePolicy) (records : List Record) :
    ((collector policy).endAfter .start records).1.counts.records =
      records.length := by
  have hfed := records_feedThrough policy .start records
  simp only [Collector.start, Nat.zero_add] at hfed
  rw [← hfed]
  exact records_judgeClosed policy _ _

/-- Collectors that differ in their counts of records only go on in the same way. -/
theorem traceless_collector (policy : GracePolicy) :
    (collector policy).Traceless Collector.withoutRecords where
  refused c r fault h := by
    rw [offer_of_refused h]
    rfl
  offer c d r h := by
    obtain ⟨k, rfl⟩ := exists_of_withoutRecords h
    simp only [collector, Stream.Engine.thenEach, batches, Collector.offer]
    cases c.batcher.push r with
    | error f => exact ⟨rfl, rfl⟩
    | ok pushed =>
        have hc := judgeClosed_records policy c.counts
          (c.counts.records + 1) pushed.2
        have hd := judgeClosed_records policy c.counts (k + 1) pushed.2
        simp only [hc, hd, Collector.withoutRecords, and_self]
  finish c d h := by
    obtain ⟨k, rfl⟩ := exists_of_withoutRecords h
    simp only [collector, Stream.Engine.thenEach, batches, Collector.finish]
    rw [judgeClosed_records policy _ k]
    exact ⟨rfl, rfl⟩

theorem refusesFatally_collector (policy : GracePolicy) :
    (collector policy).RefusesFatally := by
  intro c r fault h
  have hpush := offer_eq_error_iff_push.1 h
  unfold Batcher.push at hpush
  split at hpush
  · obtain rfl := Except.error.inj hpush
    rfl
  · split at hpush
    · next f haccept =>
        obtain rfl := Except.error.inj hpush
        obtain ⟨_, -, -, rfl⟩ := Stream.Guard.accept_eq_error_iff.1 haccept
        rfl
    · cases hpush

/-- The collector guards the order of the records. -/
theorem guardsOrder_collector (policy : GracePolicy) :
    (collector policy).GuardsOrder .start Record.sortKey refusal
      fun records c => c.batcher.Seen records where
  start := Batcher.seen_start
  inOrder _ _ hc := hc.guard.inOrder
  taken records c r first hc h := by
    obtain ⟨out, hpush⟩ := batcher_of_offer h
    exact hc.push hpush
  refused records c r fault hc h := by
    rw [offer_of_refused h]
    exact hc
  refused_iff _ _ _ _ hc :=
    offer_eq_error_iff_push.trans hc.push_eq_error_iff

end Collector

end Upload
end Reclaim
