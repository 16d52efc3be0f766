import Reclaim.Audit.Auditor
import Reclaim.Cruft.Collector
import Reclaim.Object.Collector
import Reclaim.Placement.Planner
import Reclaim.Proofs.Stream.Tally
import Reclaim.Proofs.Upload.Pass

/-!
# Counters

The engines count what they give, in counters of their states, and a pass over
uploads reports how its batches ended.  The counters are changed in many places:
when a row is taken, when a group or a batch closes, before and after steps that
may fail.  They are right at any time all the same, whatever calls have been
made and whether these calls have been refused or not.

Main results: `Balanced.call` for the batches of uploads, the `Tallies` of the
engines, `counts_cleanAll` for the report of a pass, and `counters_tell_answers`
for all of them.
-/

namespace Reclaim

/-! ## Objects -/

namespace Object

/-- The action deletes a tombstone; any other action removes a replica. -/
def Action.isDeletion : Action → Bool
  | deleteTombstone .. => true
  | removeReplica _ => false

section Tallies

variable {counter : Counts → Nat} {size : List Action → Nat}

theorem counter_closed
    (additive : Stream.Additive size)
    (sum : ∀ a b, counter (Stream.Counters.add a b) = counter a + counter b)
    {closed : List (List Action × Counts)}
    (h : ∀ c ∈ closed, counter c.2 = size c.1) (n : Counts) :
    counter (closed.foldl (fun n c => Stream.Counters.add n c.2) n) =
      counter n + size (closed.flatMap Prod.fst) := by
  induction closed generalizing n with
  | nil => exact (congrArg (counter n + ·) additive.nil).symm
  | cons c cs ih =>
      obtain ⟨hc, hcs⟩ := List.forall_mem_cons.1 h
      rw [List.foldl_cons, List.flatMap_cons, ih hcs, sum, hc, additive.append,
        Nat.add_assoc]

/-- A counter tallies if it does so for each tombstone of an object. -/
theorem tallies_of_close
    (policy : GracePolicy) (additive : Stream.Additive size)
    (sum : ∀ a b, counter (Stream.Counters.add a b) = counter a + counter b)
    (add : ∀ d row, counter (Death.add d row).2 = 0) (zero : counter {} = 0)
    (pending : ∀ name t, counter (Tombstone.close policy name t).2 =
      size (Tombstone.close policy name t).1)
    (surplus : ∀ name x, counter (Surplus.close policy name x).2 =
      size (Surplus.close policy name x).1) :
    (grouping policy).Tallies counter size where
  additive := additive
  sum := sum
  add := add
  close name d := by
    have hclosed : ∀ c ∈ d.pending.toList.map (Tombstone.close policy name) ++
        d.surplus.map (Surplus.close policy name), counter c.2 = size c.1 := by
      refine List.forall_mem_append.2 ⟨?_, ?_⟩
      · exact List.forall_mem_map.2 fun t _ => pending name t
      · exact List.forall_mem_map.2 fun x _ => surplus name x
    have hclose := counter_closed additive sum hclosed {}
    rwa [zero, Nat.zero_add] at hclose

theorem counts_add (d : Death) (row : Row) :
    (d.add row).2.tombstones = 0 ∧ (d.add row).2.replicas = 0 := by
  unfold Death.add
  cases row.state with
  | dead payload shard => exact ⟨rfl, rfl⟩
  | live =>
      unfold Death.addLive
      cases d.pending with
      | none => exact ⟨rfl, rfl⟩
      | some t =>
          by_cases h : compare t.date row.date = .lt
          · simp only [if_pos h, and_self]
          · simp only [if_neg h, and_self]

theorem counts_tombstone_close (policy : GracePolicy) (name : String) (t : Tombstone) :
    (t.close policy name).2.tombstones =
        (t.close policy name).1.countP Action.isDeletion ∧
      (t.close policy name).2.replicas =
        (t.close policy name).1.countP fun a => !a.isDeletion := by
  unfold Tombstone.close
  split
  · split
    · exact ⟨rfl, rfl⟩
    · next replicas _ =>
        -- Behind the deletion there are removals only, one for each replica.
        have hremovals : ∀ a ∈ replicas.map Action.removeReplica, a.isDeletion = false :=
          List.forall_mem_map.2 fun _ _ => rfl
        constructor
        · rw [List.countP_cons_of_pos rfl, List.countP_eq_zero.2]
          intro a ha
          simp [hremovals a ha]
        · rw [List.countP_cons_of_neg (by simp [Action.isDeletion]),
            List.countP_eq_length.2, List.length_map]
          intro a ha
          simp [hremovals a ha]
  · exact ⟨rfl, rfl⟩

theorem counts_surplus_close (policy : GracePolicy) (name : String) (x : Surplus) :
    (x.close policy name).2.tombstones =
        (x.close policy name).1.countP Action.isDeletion ∧
      (x.close policy name).2.replicas =
        (x.close policy name).1.countP fun a => !a.isDeletion := by
  unfold Surplus.close
  split
  · exact ⟨rfl, rfl⟩
  · exact ⟨rfl, rfl⟩

theorem tombstones_tallies (policy : GracePolicy) :
    (collector policy).Tallies (fun s => s.counts.tombstones)
      (List.countP Action.isDeletion) :=
  (tallies_of_close policy (Stream.additive_countP _) (fun _ _ => rfl)
    (fun d row => (counts_add d row).1) rfl
    (fun name t => (counts_tombstone_close policy name t).1)
    (fun name x => (counts_surplus_close policy name x).1)).engine

theorem replicas_tallies (policy : GracePolicy) :
    (collector policy).Tallies (fun s => s.counts.replicas)
      (List.countP fun a => !a.isDeletion) :=
  (tallies_of_close policy (Stream.additive_countP _) (fun _ _ => rfl)
    (fun d row => (counts_add d row).2) rfl
    (fun name t => (counts_tombstone_close policy name t).2)
    (fun name x => (counts_surplus_close policy name x).2)).engine

end Tallies

end Object

/-! ## Files, replicas and moves -/

namespace Cruft

theorem cruft_tallies (policy : GracePolicy) :
    (collector policy).Tallies (fun s => s.counts.cruft) List.length := by
  have h : (grouping policy).Tallies Counts.cruft List.length :=
    { additive := Stream.additive_length
      sum := fun _ _ => rfl
      add := by
        intro f row
        cases row with
        | reference objectId => rfl
        | stored objectId storageId owner date =>
            simp only [grouping, Files.add]
            split <;> rfl
      close := by
        intro name f
        simp only [grouping, Files.close]
        split <;> rfl }
  exact h.engine

end Cruft

namespace Audit

theorem missing_tallies :
    auditor.Tallies (fun s => s.counts.missing)
      fun findings => (findings.flatMap Finding.missing).length := by
  have h : grouping.Tallies Counts.missing
      fun findings => (findings.flatMap Finding.missing).length :=
    { additive := Stream.additive_flatMap _
      sum := fun _ _ => rfl
      add := fun _ _ => rfl
      close := by
        intro name r
        simp only [grouping, Replicas.close]
        split
        · rfl
        · split
          · rfl
          · exact congrArg List.length (List.append_nil r.missing).symm }
  exact h.engine

end Audit

namespace Placement

theorem moves_tallies (digest : String → Nat) (v : Inventory) :
    (planner digest v).Tallies Counts.moves List.length where
  additive := Stream.additive_length
  offer _ _ := rfl
  finish _ := rfl

end Placement

/-! ## Batches of uploads -/

namespace Upload

section Collector

variable {policy : GracePolicy} {n : Counts} {closed : Option Batch}

/-- Every batch has been counted as a batch and by what came of it. -/
def Counts.Balanced (n : Counts) : Prop :=
  n.batches = n.invalid + n.unfinalized + n.withinGrace + n.eligible

theorem Counts.Balanced.judgeClosed (h : n.Balanced) :
    (Collector.judgeClosed policy n closed).1.Balanced := by
  cases closed with
  | none => exact h
  | some batch => exact Collector.batches_judge_eq policy n batch h

theorem Counts.Balanced.call {c : Collector} (h : c.counts.Balanced)
    (call : Stream.Call Record) :
    ((Upload.batches policy).call c call).1.counts.Balanced := by
  cases call with
  | offer r =>
      simp only [Stream.Engine.call, Upload.batches, Collector.offer]
      cases c.batcher.push r with
      | error fault => exact h
      | ok pushed =>
          -- Only the records are counted before the closed batch is judged.
          have htaken : Counts.Balanced { c.counts with records := c.counts.records + 1 } := h
          exact htaken.judgeClosed
  | finish => exact h.judgeClosed

theorem balanced_after (policy : GracePolicy) (calls : List (Stream.Call Record)) :
    ((batches policy).after .start calls).counts.Balanced := by
  have hstart : Collector.start.counts.Balanced := rfl
  exact Stream.Engine.after_induction (fun c : Collector => c.counts.Balanced)
    (fun _ call h => h.call call) hstart calls

theorem eligible_judgeClosed :
    (Collector.judgeClosed policy n closed).1.eligible =
      n.eligible + (Collector.judgeClosed policy n closed).2.toList.length := by
  cases closed with
  | none => rfl
  | some batch =>
      simp only [Collector.judgeClosed, Collector.judge]
      split
      · rfl
      · split
        · rfl
        · split <;> rfl

theorem eligible_tallies (policy : GracePolicy) :
    (batches policy).Tallies (fun c => c.counts.eligible) List.length where
  additive := Stream.additive_length
  offer c r := by
    simp only [batches, Collector.offer]
    cases c.batcher.push r with
    | error fault => rfl
    | ok pushed => exact eligible_judgeClosed
  finish _ := eligible_judgeClosed

end Collector

section Report

variable {o : RemovalOptions} {s t : Store.Services} {v : Verified} {removed : Nat}

/-- Live records are only removed for a batch with a finalizing record. -/
theorem exists_finalizing_of_removeLive (h : removeLive o s v = (t, .ok removed)) :
    ∃ f, v.finalizing = some f := by
  unfold removeLive at h
  split at h
  · cases h
  · next owner howner =>
      obtain ⟨f, hf, -⟩ := ownerOf_eq_ok_iff.1 howner
      exact ⟨f, hf⟩

/-- A batch is cleaned or dropped, and for a cleaned one the finalizing record is counted. -/
theorem counts_clean (o : RemovalOptions) (s : Store.Services) (n : Report) (v : Verified) :
    (clean o s n v).2.cleaned + (clean o s n v).2.dropped = n.cleaned + n.dropped + 1 ∧
      (clean o s n v).2.finalizingDeleted + (clean o s n v).2.finalizingFailed + n.cleaned =
        n.finalizingDeleted + n.finalizingFailed + (clean o s n v).2.cleaned := by
  unfold clean
  cases hremove : removeLive o s v with
  | mk t answer =>
      cases answer with
      | error fault => exact ⟨rfl, rfl⟩
      | ok removed =>
          obtain ⟨f, hf⟩ := exists_finalizing_of_removeLive hremove
          simp only [hf]
          cases deleteFinalizing t f with
          | mk t' deleted =>
              cases deleted with
              | true => exact ⟨by simp only; omega, by simp only; omega⟩
              | false => exact ⟨by simp only; omega, by simp only; omega⟩

theorem counts_cleanAll (o : RemovalOptions) (s : Store.Services) (n : Report)
    (vs : List Verified) :
    (cleanAll o s n vs).2.cleaned + (cleanAll o s n vs).2.dropped =
        n.cleaned + n.dropped + vs.length ∧
      (cleanAll o s n vs).2.finalizingDeleted + (cleanAll o s n vs).2.finalizingFailed +
          n.cleaned =
        n.finalizingDeleted + n.finalizingFailed + (cleanAll o s n vs).2.cleaned := by
  induction vs generalizing s n with
  | nil => exact ⟨rfl, rfl⟩
  | cons v vs ih =>
      obtain ⟨hbatches, hrecords⟩ := counts_clean o s n v
      obtain ⟨hbatches', hrecords'⟩ := ih (clean o s n v).1 (clean o s n v).2
      rw [cleanAll_cons, List.length_cons]
      constructor <;> omega

/-- The report of a pass counts the batches that the collector hands out to it. -/
theorem counts_cleanUp {policy : GracePolicy} {records : List Record} {report : Report}
    (h : (cleanUp o policy s records).2 = .ok report) :
    report.cleaned + report.dropped =
        ((batches policy).run .start records).1.counts.eligible ∧
      report.finalizingDeleted + report.finalizingFailed = report.cleaned := by
  rw [cleanUp_snd] at h
  obtain ⟨vs, hrun, rfl⟩ := Success.of_map h
  obtain ⟨hafter, hemitted⟩ := Stream.Engine.after_of_run hrun
  have heligible := (eligible_tallies policy).after .start
    (records.map .offer ++ [.finish])
  rw [hafter, hemitted] at heligible
  obtain ⟨hbatches, hfinalizing⟩ := counts_cleanAll o s {} vs
  constructor
  · exact hbatches.trans heligible.symm
  · simpa using hfinalizing

end Report

end Upload

/-! ## All counters -/

/--
After any calls, also refused ones, every batch of records has been counted once
as a batch and once by what came of it, and the counters tell how many batches
were handed out, how many tombstones and replicas are to be removed, how many
files are cruft, how many replicas are missing and how many replicas are to be
moved by what has been given so far.  A pass that ends with a report has cleaned
or dropped each batch that may be cleaned up, and it has counted the finalizing
record of each batch that it has cleaned.
-/
theorem counters_tell_answers
    (policy : GracePolicy) (digest : String → Nat) (v : Placement.Inventory)
    (o : Upload.RemovalOptions) (s : Store.Services) :
    (∀ calls : List (Stream.Call Upload.Record),
      let e := Upload.batches policy
      (e.after .start calls).counts.Balanced ∧
        (e.after .start calls).counts.eligible = (e.emitted .start calls).length) ∧
    (∀ calls : List (Stream.Call Object.Row),
      let e := Object.collector policy
      (e.after .start calls).counts.tombstones =
          (e.emitted .start calls).countP Object.Action.isDeletion ∧
        (e.after .start calls).counts.replicas =
          (e.emitted .start calls).countP fun a => !a.isDeletion) ∧
    (∀ calls : List (Stream.Call Cruft.Row),
      let e := Cruft.collector policy
      (e.after .start calls).counts.cruft = (e.emitted .start calls).length) ∧
    (∀ calls : List (Stream.Call Audit.Row),
      let e := Audit.auditor
      (e.after .start calls).counts.missing =
        ((e.emitted .start calls).flatMap Audit.Finding.missing).length) ∧
    (∀ calls : List (Stream.Call Placement.Row),
      let e := Placement.planner digest v
      (e.after {} calls).moves = (e.emitted {} calls).length) ∧
    ∀ records report, (Upload.cleanUp o policy s records).2 = .ok report →
      report.cleaned + report.dropped =
          ((Upload.batches policy).run .start records).1.counts.eligible ∧
        report.finalizingDeleted + report.finalizingFailed = report.cleaned := by
  refine ⟨fun calls => ⟨?_, ?_⟩, fun calls => ⟨?_, ?_⟩, fun calls => ?_, fun calls => ?_,
    fun calls => ?_, fun records report h => Upload.counts_cleanUp h⟩
  · exact Upload.balanced_after policy calls
  · exact ((Upload.eligible_tallies policy).after .start calls).trans (Nat.zero_add _)
  · exact ((Object.tombstones_tallies policy).after .start calls).trans (Nat.zero_add _)
  · exact ((Object.replicas_tallies policy).after .start calls).trans (Nat.zero_add _)
  · exact ((Cruft.cruft_tallies policy).after .start calls).trans (Nat.zero_add _)
  · exact (Audit.missing_tallies.after .start calls).trans (Nat.zero_add _)
  · exact ((Placement.moves_tallies digest v).after {} calls).trans (Nat.zero_add _)

/-- In the sample, the one batch that is handed out is cleaned. -/
theorem counters_tell_answers_sample :
    (Upload.cleanUp ⟨1, true⟩ Upload.samplePolicy Upload.sampleServices
        Upload.sampleStream).2 = .ok ⟨1, 0, 3, 1, 0⟩ ∧
      ((Upload.batches Upload.samplePolicy).run .start
        Upload.sampleStream).1.counts.eligible = 1 := by
  have hreport : (Upload.cleanUp ⟨1, true⟩ Upload.samplePolicy Upload.sampleServices
      Upload.sampleStream).2 = .ok ⟨1, 0, 3, 1, 0⟩ := by
    have hsome : (Upload.cleanUp ⟨1, true⟩ Upload.samplePolicy Upload.sampleServices
        Upload.sampleStream).2.toOption = some ⟨1, 0, 3, 1, 0⟩ := by
      decide +kernel
    cases h : (Upload.cleanUp ⟨1, true⟩ Upload.samplePolicy Upload.sampleServices
        Upload.sampleStream).2 with
    | error fault => rw [h] at hsome; cases hsome
    | ok report => rw [h] at hsome; rw [Option.some.inj hsome]
  obtain ⟨-, -, -, -, -, hpass⟩ := counters_tell_answers Upload.samplePolicy (fun _ => 0)
    (.ofNodes [] []) ⟨1, true⟩ Upload.sampleServices
  exact ⟨hreport, (hpass _ _ hreport).1.symm⟩

end Reclaim
