import Reclaim.Proofs.Store.Operations

/-!
# What an operation leaves as it is

An operation that is refused stores and removes nothing.  An operation that is
accepted changes the entry at its own path or the record in its own slot, if it
changes anything: all other entries, and all other records with their versions,
are as before.  What no accepted operation has as its target outlasts any
operations.

Main results: `entries_perform` and `records_perform` for one operation,
`unchanged_of_untouched` for several, and `operations_local`.
-/

namespace Reclaim
namespace Store

namespace Operation

/-- The path whose entry an operation may change. -/
def entryTarget? : Operation → Option String
  | put path _ _ => some path
  | link _ target => some target
  | unlink path _ => some path
  | _ => none

/-- The slot whose record an operation may change. -/
def recordTarget? : Operation → Option Slot
  | writeRecord slot _ _ => some slot
  | deleteRecord slot => some slot
  | _ => none

end Operation

namespace Effect

/-- The path whose entry is changed. -/
def path? : Effect → Option String
  | setEntry path _ => some path
  | eraseEntry path => some path
  | _ => none

/-- The slot whose record is changed. -/
def slot? : Effect → Option Slot
  | setRecord slot _ => some slot
  | eraseRecord slot => some slot
  | _ => none

variable {s : Services} {change : Effect}

/-- A change leaves the entries at all other paths. -/
theorem get?_entries_apply {path : String} (h : change.path? ≠ some path) :
    (change.apply s).entries.get? path = s.entries.get? path := by
  cases change with
  | setEntry place e =>
      have hne : path ≠ place := fun heq => h (congrArg some heq.symm)
      exact (Sorted.SortedMap.get?_insert _ _ _ _).trans (if_neg hne)
  | eraseEntry place =>
      have hne : path ≠ place := fun heq => h (congrArg some heq.symm)
      exact (Sorted.SortedMap.get?_erase _ _ _).trans (if_neg hne)
  | nothing => rfl
  | setRecord slot r => rfl
  | eraseRecord slot => rfl

/-- A change leaves the records in all other slots. -/
theorem get?_records_apply {slot : Slot} (h : change.slot? ≠ some slot) :
    (change.apply s).records.get? slot = s.records.get? slot := by
  cases change with
  | setRecord place r =>
      have hne : slot ≠ place := fun heq => h (congrArg some heq.symm)
      exact (Sorted.SortedMap.get?_insert _ _ _ _).trans (if_neg hne)
  | eraseRecord place =>
      have hne : slot ≠ place := fun heq => h (congrArg some heq.symm)
      exact (Sorted.SortedMap.get?_erase _ _ _).trans (if_neg hne)
  | nothing => rfl
  | setEntry path e => rfl
  | eraseEntry path => rfl

end Effect

section Locality

variable {s : Services} {op : Operation} {path : String} {slot : Slot}

/-- The effect of an operation is at its target. -/
theorem path?_effect (h : op.entryTarget? ≠ some path) :
    (s.effect op).path? ≠ some path := by
  cases op with
  | link source target =>
      simp only [Services.effect]
      cases s.data? source with
      | none =>
          intro hnone
          cases hnone
      | some data => exact h
  | _ => exact h

theorem slot?_effect (h : op.recordTarget? ≠ some slot) :
    (s.effect op).slot? ≠ some slot := by
  cases op with
  | link source target =>
      simp only [Services.effect]
      cases s.data? source with
      | none => exact h
      | some data => exact h
  | _ => exact h

/-- A refused operation leaves all that is stored. -/
theorem stored_of_refused {e : Refusal} (h : (s.perform op).2 = .error e) :
    (s.perform op).1.entries = s.entries ∧ (s.perform op).1.records = s.records := by
  have hperformed := performed_perform s op
  generalize s.perform op = result at h hperformed ⊢
  cases hperformed with
  | forgotten => exact ⟨rfl, rfl⟩
  | refused => exact ⟨rfl, rfl⟩
  | accepted => cases h

theorem entries_perform (h : op.entryTarget? ≠ some path) :
    (s.perform op).1.entries.get? path = s.entries.get? path := by
  have hperformed := performed_perform s op
  generalize s.perform op = result at hperformed ⊢
  cases hperformed with
  | forgotten => rfl
  | refused => rfl
  | accepted => exact Effect.get?_entries_apply (path?_effect h)

theorem records_perform (h : op.recordTarget? ≠ some slot) :
    (s.perform op).1.records.get? slot = s.records.get? slot := by
  have hperformed := performed_perform s op
  generalize s.perform op = result at hperformed ⊢
  cases hperformed with
  | forgotten => rfl
  | refused => rfl
  | accepted => exact Effect.get?_records_apply (slot?_effect h)

/-- What no accepted operation has as its target outlasts the operations. -/
theorem unchanged_of_untouched {ops : List Operation} :
    ((∀ p ∈ (s.performAll ops).2, p.2.isOk = true → p.1.entryTarget? ≠ some path) →
        (s.performAll ops).1.entries.get? path = s.entries.get? path) ∧
      ((∀ p ∈ (s.performAll ops).2, p.2.isOk = true → p.1.recordTarget? ≠ some slot) →
        (s.performAll ops).1.records.get? slot = s.records.get? slot) := by
  induction ops generalizing s with
  | nil => exact ⟨fun _ => rfl, fun _ => rfl⟩
  | cons op ops ih =>
      obtain ⟨hentries, hrecords⟩ := @ih (s.perform op).1
      simp only [Services.performAll, List.forall_mem_cons]
      cases hanswer : (s.perform op).2 with
      | error e =>
          obtain ⟨hentries', hrecords'⟩ := stored_of_refused hanswer
          exact ⟨fun h => (hentries h.2).trans (by rw [hentries']),
            fun h => (hrecords h.2).trans (by rw [hrecords'])⟩
      | ok outcome =>
          exact ⟨fun h => (hentries h.2).trans (entries_perform (h.1 rfl)),
            fun h => (hrecords h.2).trans (records_perform (h.1 rfl))⟩

/--
A refused operation leaves all entries and all records.  An accepted one leaves
all entries but the one at its own path, which only writes, links and unlinks of
objects have, and all records but the one in its own slot, which only writes and
deletions of records have.
-/
theorem operations_local (s : Services) (op : Operation) :
    (∀ e, (s.perform op).2 = .error e →
      (s.perform op).1.entries = s.entries ∧ (s.perform op).1.records = s.records) ∧
    ∀ outcome, (s.perform op).2 = .ok outcome →
      (∀ path, op.entryTarget? ≠ some path →
        (s.perform op).1.entries.get? path = s.entries.get? path) ∧
      ∀ slot, op.recordTarget? ≠ some slot →
        (s.perform op).1.records.get? slot = s.records.get? slot :=
  ⟨fun _ h => stored_of_refused h,
    fun _ _ => ⟨fun _ h => entries_perform h, fun _ h => records_perform h⟩⟩

end Locality

end Store
end Reclaim
