import Reclaim.Proofs.Upload.Pass

/-!
# What a pass leaves alone

A cleanup writes nothing.  It erases entries at paths of live records of its
batch and the slot of its finalizing record.  A pass goes through the batches
that are handed out, and for this reason it erases nothing else, also if it ends
early or if batches are dropped.

Main results: `Erases.clean` for one batch, and `cleanUp_removes_only_handed`
for a pass.
-/

namespace Reclaim
namespace Upload

section Erased

/-- All that was done to the services is that paths and slots were erased. -/
structure Erases (s t : Store.Services) (IsPath : String → Prop)
    (IsSlot : Store.Slot → Prop) : Prop where
  entries : ∃ paths, t.entries = s.entries.eraseAll paths ∧ ∀ p ∈ paths, IsPath p
  records : ∃ slots, t.records = s.records.eraseAll slots ∧ ∀ p ∈ slots, IsSlot p
  accounts : t.accounts = s.accounts

variable {s t u : Store.Services} {IsPath IsPath' : String → Prop}
variable {IsSlot IsSlot' : Store.Slot → Prop}

theorem Erases.refl (s : Store.Services) (IsPath : String → Prop)
    (IsSlot : Store.Slot → Prop) : Erases s s IsPath IsSlot :=
  ⟨⟨[], rfl, by simp⟩, ⟨[], rfl, by simp⟩, rfl⟩

theorem Erases.mono (h : Erases s t IsPath IsSlot)
    (hpath : ∀ p, IsPath p → IsPath' p) (hslot : ∀ p, IsSlot p → IsSlot' p) :
    Erases s t IsPath' IsSlot' := by
  obtain ⟨⟨paths, hentries, hpaths⟩, ⟨slots, hrecords, hslots⟩, haccounts⟩ := h
  exact ⟨⟨paths, hentries, fun p hp => hpath p (hpaths p hp)⟩,
    ⟨slots, hrecords, fun p hp => hslot p (hslots p hp)⟩, haccounts⟩

theorem Erases.trans (h : Erases s t IsPath IsSlot) (h' : Erases t u IsPath IsSlot) :
    Erases s u IsPath IsSlot := by
  obtain ⟨⟨first, hfirst, hfirsts⟩, ⟨slots, hslots, hslotss⟩, haccounts⟩ := h
  obtain ⟨⟨rest, hrest, hrests⟩, ⟨more, hmore, hmores⟩, haccounts'⟩ := h'
  refine ⟨⟨first ++ rest, ?_, ?_⟩, ⟨slots ++ more, ?_, ?_⟩, haccounts'.trans haccounts⟩
  · rw [hrest, hfirst, Sorted.SortedMap.eraseAll_append]
  · exact List.forall_mem_append.2 ⟨hfirsts, hrests⟩
  · rw [hmore, hslots, Sorted.SortedMap.eraseAll_append]
  · exact List.forall_mem_append.2 ⟨hslotss, hmores⟩

variable {path : String} {entry : Store.Entry} {slot : Store.Slot}
variable {stored : Store.Stored}

theorem Erases.get?_entries (h : Erases s t IsPath IsSlot)
    (ht : t.entries.get? path = some entry) : s.entries.get? path = some entry := by
  obtain ⟨paths, hentries, -⟩ := h.entries
  rw [hentries, Sorted.SortedMap.get?_eraseAll] at ht
  split at ht
  · cases ht
  · exact ht

theorem Erases.get?_records (h : Erases s t IsPath IsSlot)
    (ht : t.records.get? slot = some stored) : s.records.get? slot = some stored := by
  obtain ⟨slots, hrecords, -⟩ := h.records
  rw [hrecords, Sorted.SortedMap.get?_eraseAll] at ht
  split at ht
  · cases ht
  · exact ht

theorem Erases.path_of_ne (h : Erases s t IsPath IsSlot)
    (hne : t.entries.get? path ≠ s.entries.get? path) : IsPath path := by
  obtain ⟨paths, hentries, hpaths⟩ := h.entries
  by_contra hnot
  have hm : path ∉ paths := fun hm => hnot (hpaths path hm)
  rw [hentries, Sorted.SortedMap.get?_eraseAll, if_neg hm] at hne
  exact hne rfl

theorem Erases.slot_of_ne (h : Erases s t IsPath IsSlot)
    (hne : t.records.get? slot ≠ s.records.get? slot) : IsSlot slot := by
  obtain ⟨slots, hrecords, hslots⟩ := h.records
  by_contra hnot
  have hm : slot ∉ slots := fun hm => hnot (hslots slot hm)
  rw [hrecords, Sorted.SortedMap.get?_eraseAll, if_neg hm] at hne
  exact hne rfl

end Erased

section Clean

/-- A cleanup erases live paths of its batch and the slot of its finalizing record. -/
theorem Erases.clean (o : RemovalOptions) (s : Store.Services) (n : Report)
    (v : Verified) :
    Erases s (clean o s n v).1
      (fun p => p ∈ v.livePaths s ∧
        (Store.isUploadPath p = true → o.allowUploads = true))
      (fun slot => ∃ f, v.finalizing = some f ∧ slotOf f = slot) := by
  rw [clean_eq]
  refine ⟨?_, ?_, rfl⟩
  · obtain ⟨erased, hentries, herased⟩ := Store.exists_eraseAll_of_sweepStages
      o.allowUploads s.failures s.entries (stages s v)
    refine ⟨erased, hentries, fun p hp => ?_⟩
    obtain ⟨⟨paths, hpaths, hm⟩, hupload⟩ := herased p hp
    exact ⟨mem_livePaths_of_stages hpaths hm, hupload⟩
  · refine ⟨slotsErased o s v, rfl, fun slot hslot => ?_⟩
    obtain ⟨-, f, hf, -, hfslot⟩ := deletion?_eq_some_iff.1
      (Option.mem_toList.1 (List.mem_of_mem_filter hslot))
    exact ⟨f, hf, hfslot⟩

/-- Cleanups erase live paths of their batches and the slots of their finalizing records. -/
theorem Erases.cleanAll (o : RemovalOptions) (s : Store.Services) (n : Report)
    (vs : List Verified) :
    Erases s (cleanAll o s n vs).1
      (fun p => (∃ v ∈ vs, p ∈ v.livePaths s) ∧
        (Store.isUploadPath p = true → o.allowUploads = true))
      (fun slot => ∃ v ∈ vs, ∃ f, v.finalizing = some f ∧ slotOf f = slot) := by
  induction vs generalizing s n with
  | nil => exact Erases.refl s _ _
  | cons v vs ih =>
      rw [cleanAll_cons]
      have hfirst := Erases.clean o s n v
      refine (hfirst.mono ?_ ?_).trans
        ((ih (Upload.clean o s n v).1 (Upload.clean o s n v).2).mono ?_ ?_)
      · exact fun p ⟨hp, hupload⟩ => ⟨⟨v, List.mem_cons_self, hp⟩, hupload⟩
      · exact fun slot h => ⟨v, List.mem_cons_self, h⟩
      · -- The accounts have not changed, so later paths are paths of the first state too.
        rintro p ⟨⟨w, hw, hp⟩, hupload⟩
        rw [Verified.livePaths, pathsOf_congr hfirst.accounts] at hp
        exact ⟨⟨w, List.mem_cons_of_mem v hw, hp⟩, hupload⟩
      · rintro slot ⟨w, hw, h⟩
        exact ⟨w, List.mem_cons_of_mem v hw, h⟩

end Clean

section Pass

/-- A verified batch that is handed out, with its finalizing record. -/
structure Verified.IsHandedOut (v : Verified) (policy : GracePolicy)
    (records : List Record) (f : Finalizing) : Prop where
  mem_handed : v ∈ handed policy records
  verified : ∃ batch : Batch, batch.verify = .ok v ∧ ∀ r ∈ batch.records, r ∈ records
  finalizing_eq : v.finalizing = some f
  expired : policy.isExpired f.date = true

variable {policy : GracePolicy} {records : List Record} {v : Verified} {f : Finalizing}

theorem Verified.isHandedOut (h : v ∈ handed policy records)
    (hf : v.finalizing = some f) : v.IsHandedOut policy records f := by
  obtain ⟨heligible, batch, hverify, hbatch⟩ := exists_batch_of_mem_outputs h
  refine ⟨h, ⟨batch, hverify, hbatch⟩, hf, ?_⟩
  simpa [Verified.isEligible, hf] using heligible

theorem Verified.IsHandedOut.mem_records (h : v.IsHandedOut policy records f) :
    ∀ r ∈ v.records, r ∈ records := by
  obtain ⟨batch, hverify, hbatch⟩ := h.verified
  exact fun r hr => hbatch r (mem_of_verify hverify r hr)

/--
A pass adds and changes nothing, whether it is refused or not.  Each entry that
it removes lies at the path of a live record, and each record that it removes is
the finalizing record, of a finished upload that was handed out.  Without
permission, entries of uploads stay.
-/
theorem cleanUp_removes_only_handed (o : RemovalOptions) (policy : GracePolicy)
    (s : Store.Services) (records : List Record) :
    let after := (cleanUp o policy s records).1
    (∀ path entry, after.entries.get? path = some entry →
        s.entries.get? path = some entry) ∧
      (∀ slot stored, after.records.get? slot = some stored →
        s.records.get? slot = some stored) ∧
      (∀ path, s.entries.get? path ≠ none → after.entries.get? path = none →
        ∃ (v : Verified) (f : Finalizing) (owner : Uuid) (login : String)
            (r : LiveRecord),
          v.IsHandedOut policy records f ∧ v.HasAccount s f owner login ∧
            .finalizing f ∈ records ∧ r ∈ v.live ∧ .live r ∈ records ∧
            accountPath? r.key owner login = some path) ∧
      (∀ slot, s.records.get? slot ≠ none → after.records.get? slot = none →
        ∃ (v : Verified) (f : Finalizing),
          v.IsHandedOut policy records f ∧ .finalizing f ∈ records ∧
          slot = ⟨f.shard, finalizingBucket, f.key⟩) ∧
      (o.allowUploads = false → ∀ path : String,
        Store.HasSecondSegment "uploads".toList path.toList →
          after.entries.get? path = s.entries.get? path) := by
  intro after
  have herases := Erases.cleanAll o s {} (handed policy records)
  rw [← cleanUp_fst o policy s records] at herases
  have hfinalizing : ∀ {v : Verified} {f : Finalizing},
      v.IsHandedOut policy records f → .finalizing f ∈ records := fun h =>
    h.mem_records _ (by simp [Verified.records, h.finalizing_eq])
  refine ⟨fun _ _ => herases.get?_entries, fun _ _ => herases.get?_records, ?_, ?_, ?_⟩
  · intro path hbefore hafter
    obtain ⟨⟨v, hv, hlive⟩, -⟩ :=
      herases.path_of_ne (by rw [hafter]; exact hbefore.symm)
    obtain ⟨f, owner, login, haccount, r, hr, hpath⟩ := mem_pathsOf_iff.1 hlive
    have hout := Verified.isHandedOut hv haccount.finalizing_eq
    refine ⟨v, f, owner, login, r, hout, haccount, hfinalizing hout, hr, ?_, hpath⟩
    exact hout.mem_records _ (by simp [Verified.records, hr])
  · intro slot hbefore hafter
    obtain ⟨v, hv, f, hf, hslot⟩ :=
      herases.slot_of_ne (by rw [hafter]; exact hbefore.symm)
    have hout := Verified.isHandedOut hv hf
    exact ⟨v, f, hout, hfinalizing hout, hslot.symm⟩
  · intro hallow path hsegment
    by_contra hne
    have hallowed := (herases.path_of_ne hne).2 (Store.isUploadPath_iff.2 hsegment)
    rw [hallow] at hallowed
    cases hallowed

/-- In the sample, the entry of a part is removed, and it is the path of a live record. -/
theorem cleanUp_removes_only_sample :
    sampleServices.entries.get? "/jo/d/1" ≠ none ∧
      (cleanUp ⟨1, true⟩ samplePolicy sampleServices sampleStream).1.entries.get?
        "/jo/d/1" = none ∧
      ∃ (owner : Uuid) (login : String) (r : LiveRecord),
        .live r ∈ sampleStream ∧ accountPath? r.key owner login = some "/jo/d/1" := by
  have hbefore : sampleServices.entries.get? "/jo/d/1" ≠ none := by decide +kernel
  have hafter : (cleanUp ⟨1, true⟩ samplePolicy sampleServices
      sampleStream).1.entries.get? "/jo/d/1" = none := by
    decide +kernel
  obtain ⟨-, -, hentries, -, -⟩ :=
    cleanUp_removes_only_handed ⟨1, true⟩ samplePolicy sampleServices sampleStream
  obtain ⟨v, f, owner, login, r, -, -, -, -, hr, hpath⟩ :=
    hentries "/jo/d/1" hbefore hafter
  exact ⟨hbefore, hafter, owner, login, r, hr, hpath⟩

end Pass

end Upload
end Reclaim
