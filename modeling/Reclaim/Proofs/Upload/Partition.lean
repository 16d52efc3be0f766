import Reclaim.Proofs.Upload.Refusals

/-!
# Batches partition the records that are taken

The callers of a batcher push records and close batches in whatever order they
like, and they go on after a fault.  Nothing is known of the order of the
records, so the batches are kept apart by the closed uploads alone: a record of
a closed upload is refused, and any other goes into the open batch or begins a
new one.

A batcher is changed in place, and a fault undoes no change.  That a refused
record leaves no trace comes from the order of the steps, since all checks are
made before the first change.

Main results: `run_enter` for the steps in place, `Keeps.call` for one call, and
`batches_partition_taken` for any calls.
-/

namespace Reclaim

namespace Stream
namespace Guard

variable {κ : Type} [SortKey κ]

/-- Lets a key through in place. -/
def observe (key : κ) : EStateM Fault (Guard κ) Unit := do
  match (← get).last with
  | some previous =>
      if compare key previous = .lt then
        throw (.outOfOrder (shown key) (shown previous))
      set (⟨some key⟩ : Guard κ)
  | none => set (⟨some key⟩ : Guard κ)

/-- A guard that stops a key is left as it was. -/
theorem run_observe (g : Guard κ) (key : κ) :
    (observe key).run g =
      match g.accept key with
      | .error fault => .error fault g
      | .ok g' => .ok () g' := by
  obtain ⟨last⟩ := g
  cases last with
  | none => rfl
  | some previous =>
      by_cases h : compare key previous = .lt <;> simp [observe, accept, h]

end Guard
end Stream

namespace Upload
namespace Batcher

/-! ## Calls in place -/

/-- Takes a record in place; what has been changed before a fault stays changed. -/
def enter (r : Record) : EStateM Fault Batcher (Option Batch) := do
  if r.upload ∈ (← get).closed then
    throw (.uploadReappeared r.upload)
  match (Stream.Guard.observe r.sortKey).run (← get).guard with
  | .error fault guard =>
      modify fun b => { b with guard := guard }
      throw fault
  | .ok () guard =>
      modify fun b => { b with guard := guard }
      modifyGet fun b => (b.take r).swap

/-- A record that is refused in place leaves no trace. -/
theorem run_enter (b : Batcher) (r : Record) :
    (enter r).run b =
      match b.push r with
      | .error fault => .error fault b
      | .ok (b', out) => .ok out b' := by
  unfold enter push
  by_cases hclosed : r.upload ∈ b.closed
  · simp [hclosed]
  · have hobserve := Stream.Guard.run_observe b.guard r.sortKey
    cases haccept : b.guard.accept r.sortKey with
    | error fault =>
        rw [haccept] at hobserve
        simp [hclosed, hobserve]
        rfl
    | ok guard =>
        rw [haccept] at hobserve
        simp [hclosed, hobserve]

/-- A call of a batcher. -/
inductive Call
  | push (r : Record)
  | finish

/-- What a call does in place. -/
def Call.act : Call → EStateM Fault Batcher (Option Batch)
  | push r => enter r
  | finish => modifyGet fun b => b.finish.swap

/-- The answer to a call, and the batcher after it. -/
def call (b : Batcher) (c : Call) : Except Fault (Option Batch) × Batcher :=
  match c.act.run b with
  | .error fault b => (.error fault, b)
  | .ok out b => (.ok out, b)

/-- Calls one after the other, each with its answer, and the batcher after them. -/
def history (b : Batcher) :
    List Call → List (Call × Except Fault (Option Batch)) × Batcher
  | [] => ([], b)
  | c :: cs =>
      let (answer, b) := b.call c
      let (rest, b) := b.history cs
      ((c, answer) :: rest, b)

/-- The record that a call has taken. -/
def takenBy? : Call × Except Fault (Option Batch) → Option Record
  | (.push r, .ok _) => some r
  | _ => none

/-- The batch that a call has handed out. -/
def handedOutBy? : Call × Except Fault (Option Batch) → Option Batch
  | (_, .ok out) => out
  | _ => none

theorem call_push (b : Batcher) (r : Record) :
    b.call (.push r) =
      match b.push r with
      | .error fault => (.error fault, b)
      | .ok (b', out) => (.ok out, b') := by
  rw [call, Call.act, run_enter]
  cases b.push r <;> rfl

theorem call_finish (b : Batcher) :
    b.call .finish = (.ok b.finish.2, b.finish.1) := rfl

end Batcher

/-! ## Partitions -/

/-- Batches of different uploads that hold records in their order. -/
structure Partitions (batches : List Batch) (records : List Record) : Prop where
  records_eq : batches.flatMap Batch.records = records
  own : ∀ batch ∈ batches,
    batch.records ≠ [] ∧ ∀ r ∈ batch.records, r.upload = batch.upload
  distinct : (batches.map Batch.upload).Nodup

section Partitions

variable {batches : List Batch} {batch : Batch} {records : List Record} {r : Record}

theorem Partitions.nil : Partitions [] [] :=
  ⟨rfl, List.forall_mem_nil _, List.nodup_nil⟩

/-- A record of a further upload begins a batch. -/
theorem Partitions.begin
    (h : Partitions batches records) (hnew : r.upload ∉ batches.map Batch.upload) :
    Partitions (batches ++ [⟨r.upload, [r]⟩]) (records ++ [r]) where
  records_eq := by
    rw [List.flatMap_append, h.records_eq, List.flatMap_singleton]
  own := by
    refine List.forall_mem_append.2 ⟨h.own, List.forall_mem_singleton.2 ⟨?_, ?_⟩⟩
    · exact List.cons_ne_nil r []
    · exact List.forall_mem_singleton.2 rfl
  distinct := by
    rw [List.map_append, List.map_singleton]
    exact List.nodup_append.2 ⟨h.distinct, List.nodup_singleton _, by grind⟩

/-- A record of the upload of the last batch goes into that batch. -/
theorem Partitions.extend
    (h : Partitions (batches ++ [batch]) records) (hsame : batch.upload = r.upload) :
    Partitions (batches ++ [{ batch with records := batch.records ++ [r] }])
      (records ++ [r]) where
  records_eq := by
    rw [← h.records_eq]
    simp
  own := by
    obtain ⟨hown, hbatch⟩ := List.forall_mem_append.1 h.own
    obtain ⟨-, hrecords⟩ := List.forall_mem_singleton.1 hbatch
    refine List.forall_mem_append.2 ⟨hown, List.forall_mem_singleton.2 ⟨by simp, ?_⟩⟩
    exact List.forall_mem_append.2 ⟨hrecords, List.forall_mem_singleton.2 hsame.symm⟩
  distinct := by
    have hdistinct := h.distinct
    rw [List.map_append] at hdistinct ⊢
    exact hdistinct

end Partitions

/-! ## What calls keep -/

namespace Batcher

/-- A batcher that has taken records and handed out batches. -/
structure Keeps (out : List Batch) (taken : List Record) (b : Batcher) : Prop where
  partition : Partitions (out ++ b.current.toList) taken
  closed : ∀ u, u ∈ b.closed ↔ u ∈ out.map Batch.upload
  guard : b.guard.last = taken.getLast?.map Record.sortKey

section Keeps

variable {b b' : Batcher} {out : List Batch} {taken : List Record} {r : Record}
variable {handed : Option Batch}

theorem flatMap_current (b : Batcher) :
    b.current.toList.flatMap Batch.records = b.openRecords := by
  unfold openRecords
  cases b.current <;> simp

theorem keeps_start : start.Keeps [] [] :=
  ⟨.nil, fun _ => Iff.rfl, rfl⟩

theorem Keeps.finish (h : b.Keeps out taken) :
    b.finish.1.Keeps (out ++ b.finish.2.toList) taken := by
  have hpartition := h.partition
  unfold Batcher.finish
  cases hcurrent : b.current with
  | none => simpa [hcurrent] using h
  | some batch =>
      rw [hcurrent] at hpartition
      refine ⟨?_, fun u => ?_, h.guard⟩
      · simpa using hpartition
      · simp [h.closed, or_comm]

/-- A record of an upload that is not closed goes into the open batch or begins the next one. -/
theorem partitions_take
    (hpartition : Partitions (out ++ b.current.toList) taken)
    (hclosed : ∀ u, u ∈ b.closed ↔ u ∈ out.map Batch.upload)
    (hopen : r.upload ∉ b.closed) :
    Partitions ((out ++ (b.take r).2.toList) ++ (b.take r).1.current.toList)
        (taken ++ [r]) ∧
      ∀ u, u ∈ (b.take r).1.closed ↔
        u ∈ (out ++ (b.take r).2.toList).map Batch.upload := by
  have hnew : r.upload ∉ out.map Batch.upload := fun hm => hopen ((hclosed _).2 hm)
  unfold Batcher.take
  cases hcurrent : b.current with
  | none =>
      rw [hcurrent] at hpartition
      simp only [Option.toList_none, List.append_nil] at hpartition ⊢
      exact ⟨hpartition.begin hnew, hclosed⟩
  | some batch =>
      rw [hcurrent] at hpartition
      by_cases hsame : batch.upload = r.upload
      · simp only [if_pos hsame, Option.toList_none, List.append_nil]
        exact ⟨hpartition.extend hsame, hclosed⟩
      · simp only [if_neg hsame]
        refine ⟨hpartition.begin ?_, fun u => ?_⟩
        · simp [hnew, Ne.symm hsame]
        · simp [hclosed, or_comm]

theorem Keeps.push (h : b.Keeps out taken) (hpush : b.push r = .ok (b', handed)) :
    b'.Keeps (out ++ handed.toList) (taken ++ [r]) := by
  unfold Batcher.push at hpush
  split at hpush
  · cases hpush
  · next hopen =>
      split at hpush
      · cases hpush
      · next guard haccept =>
          have htake := Except.ok.inj hpush
          obtain ⟨hpartition, hclosed⟩ := partitions_take
            (b := { b with guard := guard }) h.partition h.closed hopen
          have hguard := guard_take { b with guard := guard } r
          rw [htake] at hpartition hclosed hguard
          refine ⟨hpartition, hclosed, ?_⟩
          rw [hguard, (Stream.Guard.accept_eq_ok_iff.1 haccept).1,
            List.getLast?_concat, Option.map_some]

/-- A record is refused if its batch has been handed out or if it comes before the last one. -/
theorem Keeps.refuses_iff (h : b.Keeps out taken) :
    (∃ fault, b.push r = .error fault) ↔
      r.upload ∈ out.map Batch.upload ∨
        ∃ last ∈ taken.getLast?, compare r.sortKey last.sortKey = .lt := by
  rw [← h.closed]
  unfold Batcher.push
  by_cases hclosed : r.upload ∈ b.closed
  · simp [hclosed]
  · simp only [hclosed, if_false, false_or]
    cases haccept : b.guard.accept r.sortKey with
    | error fault =>
        obtain ⟨key, hkey, hlt, -⟩ := Stream.Guard.accept_eq_error_iff.1 haccept
        rw [h.guard] at hkey
        obtain ⟨last, hlast, rfl⟩ := Option.map_eq_some_iff.1 hkey
        simpa using ⟨last, hlast, hlt⟩
    | ok guard =>
        obtain ⟨-, hnot⟩ := Stream.Guard.accept_eq_ok_iff.1 haccept
        rw [h.guard] at hnot
        simp only [reduceCtorEq, exists_false, false_iff, not_exists, not_and]
        exact fun last hlast => hnot _ (Option.mem_map_of_mem _ hlast)

/-- What one call adds to the batches that were handed out and to the records that were taken. -/
theorem Keeps.call (h : b.Keeps out taken) (c : Call) :
    (b.call c).2.Keeps (out ++ (handedOutBy? (c, (b.call c).1)).toList)
      (taken ++ (takenBy? (c, (b.call c).1)).toList) := by
  cases c with
  | push r =>
      rw [call_push]
      cases hpush : b.push r with
      | error fault => simpa [handedOutBy?, takenBy?] using h
      | ok pushed => exact h.push hpush
  | finish =>
      rw [call_finish]
      simpa [handedOutBy?, takenBy?] using h.finish

theorem Keeps.history (h : b.Keeps out taken) (calls : List Call) :
    (b.history calls).2.Keeps
      (out ++ (b.history calls).1.filterMap handedOutBy?)
      (taken ++ (b.history calls).1.filterMap takenBy?) := by
  induction calls generalizing b out taken with
  | nil => simpa [Batcher.history] using h
  | cons c cs ih =>
      have hrest := ih (h.call c)
      rw [List.append_assoc, List.append_assoc] at hrest
      simpa only [Batcher.history, List.filterMap_eq_flatMap_toList, List.flatMap_cons]
        using hrest

end Keeps

/--
Whatever calls are made of a batcher, also after faults, the records of the
batches that were handed out and of the open one are those that were taken, in
their order.  A batch that was handed out is not empty and holds records of its
own upload, and no upload has two batches.  A call that is refused leaves the
batcher as it was, and refused are just the records of batches that were handed
out and those that come before the last one taken.
-/
theorem batches_partition_taken (calls : List Call) :
    let made := (start.history calls).1
    let b := (start.history calls).2
    let out := made.filterMap handedOutBy?
    let taken := made.filterMap takenBy?
    out.flatMap Batch.records ++ b.openRecords = taken ∧
      (∀ batch ∈ out,
        batch.records ≠ [] ∧ ∀ r ∈ batch.records, r.upload = batch.upload) ∧
      ((out ++ b.current.toList).map Batch.upload).Nodup ∧
      (∀ c fault, (b.call c).1 = .error fault → (b.call c).2 = b) ∧
      ∀ r, (∃ fault, (b.call (.push r)).1 = .error fault) ↔
        r.upload ∈ out.map Batch.upload ∨
          ∃ last ∈ taken.getLast?, compare r.sortKey last.sortKey = .lt := by
  intro made b out taken
  have h : b.Keeps out taken := by simpa using keeps_start.history calls
  refine ⟨?_, fun batch hbatch => ?_, h.partition.distinct, fun c fault hfault => ?_,
    fun r => ?_⟩
  · rw [← h.partition.records_eq, List.flatMap_append, flatMap_current]
  · exact h.partition.own batch (List.mem_append_left _ hbatch)
  · cases c with
    | push r =>
        rw [call_push] at hfault ⊢
        cases hpush : b.push r with
        | error fault' => rfl
        | ok pushed =>
            rw [hpush] at hfault
            cases hfault
    | finish =>
        rw [call_finish] at hfault
        cases hfault
  · rw [← h.refuses_iff, call_push]
    cases b.push r <;> simp

end Batcher
end Upload
end Reclaim
