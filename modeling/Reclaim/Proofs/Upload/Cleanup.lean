import Reclaim.Proofs.Time.Order
import Reclaim.Proofs.Upload.Removal
import Reclaim.Upload.Cleanup

/-!
# Cleaning up one batch

The cleanup of a batch goes through two stages, the paths of the parts and the
path of the directory.  There are no stages if the account of the owner is not
found, and a stage has no paths if one of its records is not owned.  The
finalizing record is deleted only after both stages have been swept.

Main results: `clean_eq` says all that a cleanup does, and
`live_records_gone_of_deleteRecord` what must be gone when a record is deleted.
-/

namespace Reclaim
namespace Upload

section Account

/-- A finalizing record, its owner and the login of the owner's account. -/
structure Verified.HasAccount (v : Verified) (s : Store.Services)
    (f : Finalizing) (owner : Uuid) (login : String) : Prop where
  finalizing_eq : v.finalizing = some f
  owner_eq : f.owner? = some owner
  login_eq : s.login? owner = some login

/-- The owner of a batch and the login of the account, unless the lookup is refused. -/
def resolved? (s : Store.Services) (v : Verified) : Option (Uuid × String) :=
  match ownerOf v with
  | .error _ => none
  | .ok owner =>
      match s.refusal? owner.text with
      | some _ => none
      | none => (s.login? owner).map (owner, ·)

/-- The lookup of the account, if the batch names an owner. -/
def lookups (v : Verified) : List Store.Call :=
  match ownerOf v with
  | .error _ => []
  | .ok owner => [.resolve owner]

variable {s : Store.Services} {v : Verified} {owner : Uuid} {login : String}

theorem ownerOf_eq_ok_iff :
    ownerOf v = .ok owner ↔
      ∃ f, v.finalizing = some f ∧ f.owner? = some owner := by
  unfold ownerOf
  cases hf : v.finalizing with
  | none => simp
  | some f => cases ho : f.owner? <;> simp [ho]

theorem exists_hasAccount_of_resolved? (h : resolved? s v = some (owner, login)) :
    ∃ f, v.HasAccount s f owner login := by
  unfold resolved? at h
  split at h
  · cases h
  · next owner' howner =>
      split at h
      · cases h
      · obtain ⟨login', hlogin, heq⟩ := Option.map_eq_some_iff.1 h
        cases heq
        obtain ⟨f, hf, ho⟩ := ownerOf_eq_ok_iff.1 howner
        exact ⟨f, hf, ho, hlogin⟩

end Account

section Stages

/-- The paths of the parts and the path of the directory under a login. -/
def ownStages (v : Verified) (owner : Uuid) (login : String) :
    List (Option (List String)) :=
  [ownPaths? v.upload owner login v.parts,
    ownPaths? v.upload owner login v.directory.toList]

/-- The stages of a cleanup; if the account is not found, the only stage has no paths. -/
def stages (s : Store.Services) (v : Verified) : List (Option (List String)) :=
  match resolved? s v with
  | none => [none]
  | some (owner, login) => ownStages v owner login

/-- What comes of the stages of a batch. -/
def sweeping (o : RemovalOptions) (s : Store.Services) (v : Verified) :
    Store.Sweeping :=
  Store.sweepStages o.allowUploads s.failures s.entries (stages s v)

theorem removeOwned_eq (o : RemovalOptions) (s : Store.Services) (v : Verified)
    (owner : Uuid) (login : String) :
    let r := Store.sweepStages o.allowUploads s.failures s.entries
      (ownStages v owner login)
    ∃ answer, removeOwned o s v owner login =
        (tried o s r.entries r.tried, answer) ∧
      answer.isOk = r.cleared := by
  unfold removeOwned ownStages
  rcases removeRecords_cases o s v.upload owner login v.parts with
    ⟨hparts, fault, hfault⟩ | ⟨parts, hparts, ⟨hclear, n, hn⟩ | ⟨hclear, fault, hfault⟩⟩
  · rw [hfault, hparts]
    simp only [Store.sweepStages, tried_nil]
    exact ⟨_, rfl, rfl⟩
  · -- All parts were removed, so the directory is reached.
    rw [hn, hparts]
    simp only [Store.sweepStages, if_pos hclear]
    rcases removeRecords_cases o (tried o s (s.entries.eraseAll parts) parts)
        v.upload owner login v.directory.toList with
      ⟨hdir, fault, hfault⟩ | ⟨dir, hdir, ⟨hclear', m, hm⟩ | ⟨hclear', fault, hfault⟩⟩
    · rw [hfault, hdir]
      simp only [Store.sweepStages, List.append_nil]
      exact ⟨_, rfl, rfl⟩
    · simp only [tried_tried] at hm
      simp only [tried] at hclear'
      rw [hm, hdir]
      simp only [Store.sweepStages, if_pos hclear', List.append_nil]
      exact ⟨_, rfl, rfl⟩
    · simp only [tried_tried] at hfault
      simp only [tried] at hclear'
      rw [hfault, hdir]
      simp only [Store.sweepStages, if_neg hclear']
      exact ⟨_, rfl, rfl⟩
  · rw [hfault, hparts]
    simp only [Store.sweepStages, if_neg hclear]
    exact ⟨_, rfl, rfl⟩

/-- The account is looked up, and then the stages are gone through. -/
theorem removeLive_eq (o : RemovalOptions) (s : Store.Services) (v : Verified) :
    ∃ answer, removeLive o s v =
        (tried o { s with calls := s.calls ++ lookups v }
          (sweeping o s v).entries (sweeping o s v).tried, answer) ∧
      answer.isOk = (sweeping o s v).cleared := by
  unfold removeLive sweeping stages resolved? lookups
  cases ownerOf v with
  | error fault =>
      refine ⟨.error fault, ?_, rfl⟩
      simp [Store.sweepStages, tried]
  | ok owner =>
      have hlog : ∀ target, (s.log (.resolve owner)).refusal? target = s.refusal? target :=
        fun _ => rfl
      simp only [Store.Services.resolve, hlog]
      cases s.refusal? owner.text with
      | some e =>
          refine ⟨.error (.unresolvedAccount owner e), ?_, rfl⟩
          simp [Store.sweepStages, tried, Store.Services.log]
      | none =>
          have hlogin : (s.log (.resolve owner)).login? owner = s.login? owner := rfl
          simp only [hlogin]
          cases s.login? owner with
          | none =>
              refine ⟨.error (.unresolvedAccount owner (.notFound owner.text)), ?_, rfl⟩
              simp [Store.sweepStages, tried, Store.Services.log]
          | some login =>
              exact removeOwned_eq o (s.log (.resolve owner)) v owner login

end Stages

section Deletion

/-- Where a finalizing record lies. -/
def slotOf (f : Finalizing) : Store.Slot :=
  ⟨f.shard, finalizingBucket, f.key⟩

/-- The slot from which the finalizing record of a batch is deleted, if it gets so far. -/
def deletion? (o : RemovalOptions) (s : Store.Services) (v : Verified) :
    Option Store.Slot :=
  if (sweeping o s v).cleared then
    match v.finalizing with
    | some f => if s.refusal? f.shard = none then some (slotOf f) else none
    | none => none
  else none

/-- The slots that are emptied by a cleanup. -/
def slotsErased (o : RemovalOptions) (s : Store.Services) (v : Verified) :
    List Store.Slot :=
  (deletion? o s v).toList.filter fun slot => s.refusal? slot.key = none

/-- The calls that are made in a cleanup, in their order. -/
def callsMade (o : RemovalOptions) (s : Store.Services) (v : Verified) :
    List Store.Call :=
  lookups v ++ (sweeping o s v).tried.map (.unlink · o.allowUploads) ++
    (deletion? o s v).toList.map .deleteRecord

variable {o : RemovalOptions} {s : Store.Services} {v : Verified}

/-- A record is deleted, or nothing is found, unless the shard or the key is refused. -/
theorem deleteRecord_eq (s : Store.Services) (slot : Store.Slot) :
    (s.deleteRecord slot).1 =
      { s with
        records :=
          if s.refusal? slot.key = none then s.records.erase slot else s.records
        calls := s.calls ++ [.deleteRecord slot] } := by
  have hlog : (s.log (.deleteRecord slot)).refusal? slot.key =
      s.refusal? slot.key := rfl
  unfold Store.Services.deleteRecord
  simp only [hlog]
  cases s.refusal? slot.key with
  | some e => rfl
  | none =>
      by_cases hc : s.records.contains slot = true
      · simp [Store.Services.log, hc]
      · have habsent : slot ∉ s.records.keys :=
          fun hm => hc (Sorted.SortedMap.mem_keys_iff.1 hm)
        simp [Store.Services.log, hc, Sorted.SortedMap.erase_of_not_mem habsent]

theorem deleteFinalizing_fst (s : Store.Services) (f : Finalizing) :
    (deleteFinalizing s f).1 =
      if s.refusal? f.shard = none then (s.deleteRecord (slotOf f)).1 else s := by
  have hshard : (s.onShard f.shard fun s => s.deleteRecord (slotOf f)).1 =
      if s.refusal? f.shard = none then (s.deleteRecord (slotOf f)).1 else s := by
    unfold Store.Services.onShard
    cases s.refusal? f.shard <;> rfl
  rw [← hshard]
  unfold deleteFinalizing slotOf
  split
  all_goals
    next heq => rw [heq]

theorem clean_fst (o : RemovalOptions) (s : Store.Services) (n : Report)
    (v : Verified) :
    (clean o s n v).1 =
      if (removeLive o s v).2.isOk then
        v.finalizing.elim (removeLive o s v).1 fun f =>
          (deleteFinalizing (removeLive o s v).1 f).1
      else (removeLive o s v).1 := by
  unfold clean
  cases removeLive o s v with
  | mk t answer =>
      cases answer with
      | error fault => rfl
      | ok removed =>
          cases v.finalizing with
          | none => rfl
          | some f =>
              simp only [Except.isOk, Except.toBool, if_true, Option.elim_some]
              cases deleteFinalizing t f with
              | mk t' deleted => cases deleted <;> rfl

/-- A cleanup tries the paths of its stages and then deletes the finalizing record. -/
theorem clean_eq (o : RemovalOptions) (s : Store.Services) (n : Report)
    (v : Verified) :
    (clean o s n v).1 =
      { s with
        entries := (sweeping o s v).entries
        records := s.records.eraseAll (slotsErased o s v)
        calls := s.calls ++ callsMade o s v } := by
  obtain ⟨answer, hremove, hok⟩ := removeLive_eq o s v
  have hrefusal : ∀ target, (removeLive o s v).1.refusal? target =
      s.refusal? target := fun _ => by rw [hremove]; rfl
  rw [clean_fst, hremove, hok]
  unfold slotsErased callsMade deletion?
  cases (sweeping o s v).cleared with
  | false => simp [tried]
  | true =>
      cases v.finalizing with
      | none => simp [tried]
      | some f =>
          rw [hremove] at hrefusal
          simp only [Option.elim_some, if_true, deleteFinalizing_fst,
            deleteRecord_eq, hrefusal]
          cases s.refusal? f.shard with
          | some e => simp [tried]
          | none =>
              by_cases hkey : s.refusal? (slotOf f).key = none <;>
                simp [tried, hkey]

@[simp] theorem clean_accounts (o : RemovalOptions) (s : Store.Services) (n : Report)
    (v : Verified) : (clean o s n v).1.accounts = s.accounts := by
  rw [clean_eq]

@[simp] theorem clean_failures (o : RemovalOptions) (s : Store.Services) (n : Report)
    (v : Verified) : (clean o s n v).1.failures = s.failures := by
  rw [clean_eq]

end Deletion

section Gone

variable {o : RemovalOptions} {s : Store.Services} {n : Report}
variable {v : Verified} {slot : Store.Slot} {made : List Store.Call}

theorem exists_of_cleared_sweeping (h : (sweeping o s v).cleared = true) :
    ∃ f owner login parts directory,
      v.HasAccount s f owner login ∧
        v.parts.map (fun r => accountPath? r.key owner login) =
          parts.map some ∧
        v.directory.toList.map (fun r => accountPath? r.key owner login) =
          directory.map some ∧
        lookups v = [.resolve owner] ∧
        sweeping o s v =
          ⟨s.entries.eraseAll (parts ++ directory), parts ++ directory, true⟩ := by
  obtain ⟨paths, hstages, hclear⟩ := Store.exists_of_cleared h
  have hsweep := Store.sweepStages_of_clear hclear
  rw [← hstages] at hsweep
  unfold stages at hstages
  split at hstages
  · cases paths <;> simp at hstages
  · next owner login hresolved =>
      obtain ⟨f, hf⟩ := exists_hasAccount_of_resolved? hresolved
      obtain ⟨parts, rest, rfl, hparts, hrest⟩ := List.map_eq_cons_iff.1 hstages.symm
      obtain ⟨directory, rest, rfl, hdirectory, hrest⟩ := List.map_eq_cons_iff.1 hrest
      obtain rfl := List.map_eq_nil_iff.1 hrest
      refine ⟨f, owner, login, parts, directory, hf, ?_, ?_, ?_, ?_⟩
      · exact ownPaths?_eq_some_iff.1 hparts.symm
      · exact ownPaths?_eq_some_iff.1 hdirectory.symm
      · rw [lookups, ownerOf_eq_ok_iff.2 ⟨f, hf.finalizing_eq, hf.owner_eq⟩]
      · simpa [sweeping] using hsweep

theorem deletion?_eq_some_iff :
    deletion? o s v = some slot ↔
      (sweeping o s v).cleared = true ∧
        ∃ f, v.finalizing = some f ∧ s.refusal? f.shard = none ∧ slotOf f = slot := by
  unfold deletion?
  cases (sweeping o s v).cleared with
  | false => simp
  | true => cases v.finalizing <;> simp

theorem deletion?_of_mem_callsMade (h : .deleteRecord slot ∈ callsMade o s v) :
    deletion? o s v = some slot := by
  have hlookup : .deleteRecord slot ∉ lookups v := by
    unfold lookups
    split <;> simp
  simpa [callsMade, hlookup] using h

/--
If a cleanup deletes a record, it is the finalizing record of the batch, and all
live records of the batch are owned by its owner.  The paths of the parts were
unlinked before, then that of the directory, and none of them has an entry when
the record is deleted or when the cleanup ends.
-/
theorem live_records_gone_of_deleteRecord
    (hmade : (clean o s n v).1.calls = s.calls ++ made)
    (hdelete : .deleteRecord slot ∈ made) :
    ∃ (f : Finalizing) (owner : Uuid) (login : String)
        (parts directory : List String),
      v.HasAccount s f owner login ∧
        slot = ⟨f.shard, finalizingBucket, f.key⟩ ∧
        v.parts.map (fun r => accountPath? r.key owner login) =
          parts.map some ∧
        v.directory.toList.map (fun r => accountPath? r.key owner login) =
          directory.map some ∧
        (∀ path ∈ parts ++ directory, IsUnder login path) ∧
        made = .resolve owner ::
          (parts.map (.unlink · o.allowUploads) ++
            directory.map (.unlink · o.allowUploads) ++ [.deleteRecord slot]) ∧
        (clean o s n v).1.calls =
          (removeLive o s v).1.calls ++ [.deleteRecord slot] ∧
        ∀ path ∈ parts ++ directory,
          (removeLive o s v).1.entries.get? path = none ∧
            (clean o s n v).1.entries.get? path = none := by
  have hclean := clean_eq o s n v
  -- A deletion among the calls means that both stages were swept to the end.
  have hcalls : made = callsMade o s v := by
    rw [hclean] at hmade
    exact (List.append_cancel_left hmade).symm
  have hdeletion := deletion?_of_mem_callsMade (hcalls ▸ hdelete)
  obtain ⟨hcleared, g, hg, -, hslot⟩ := deletion?_eq_some_iff.1 hdeletion
  obtain ⟨f, owner, login, parts, directory, hf, hparts, hdirectory, hlookup, hsweep⟩ :=
    exists_of_cleared_sweeping hcleared
  obtain rfl : f = g := Option.some.inj (hf.finalizing_eq.symm.trans hg)
  obtain ⟨answer, hremove, -⟩ := removeLive_eq o s v
  refine ⟨f, owner, login, parts, directory, hf, hslot.symm, hparts, hdirectory,
    ?_, ?_, ?_, ?_⟩
  · intro path hm
    rcases List.mem_append.1 hm with hm | hm
    · obtain ⟨r, -, hr⟩ := exists_record_of_mem hparts hm
      exact under_of_accountPath? hr
    · obtain ⟨r, -, hr⟩ := exists_record_of_mem hdirectory hm
      exact under_of_accountPath? hr
  · rw [hcalls, callsMade, hlookup, hsweep, hdeletion]
    simp
  · rw [hclean, hremove, callsMade, hdeletion]
    simp [tried]
  · intro path hm
    rw [hclean, hremove, hsweep]
    simp [tried, Sorted.SortedMap.get?_eraseAll, List.mem_append.1 hm]

/-- An account whose uuid repeats one digit. -/
def sampleOwner : Uuid :=
  ⟨List.replicate 32 ⟨1, by decide⟩, List.length_replicate⟩

/-- A key under the uuid of the account. -/
def sampleKey (rest : String) : String :=
  "/11111111-1111-1111-1111-111111111111/" ++ rest

/-- A finished upload of the account with a directory and two parts. -/
def sampleBatch : Verified where
  upload := sampleOwner
  finalizing := some ⟨sampleOwner, "u:" ++ sampleKey "o", "s1", .wholeSecond 1, .commit⟩
  directory := some ⟨sampleOwner, sampleKey "d", .wholeSecond 1, .directory⟩
  parts :=
    [⟨sampleOwner, sampleKey "d/0", .wholeSecond 1, .part⟩,
      ⟨sampleOwner, sampleKey "d/1", .wholeSecond 1, .part⟩]

/-- The account, the directory of the upload and one of its parts. -/
def sampleServices : Store.Services :=
  ((Store.Services.addAccount {} sampleOwner "jo").addEntry "/jo/d" .directory).addEntry
    "/jo/d/1" (.object [])

/-- The calls of the cleanup of the sample. -/
def sampleCalls : List Store.Call :=
  [.resolve sampleOwner, .unlink "/jo/d/0" true, .unlink "/jo/d/1" true,
    .unlink "/jo/d" true,
    .deleteRecord ⟨"s1", finalizingBucket, "u:" ++ sampleKey "o"⟩]

/-- In the sample, the record is deleted and all that was unlinked is gone. -/
theorem live_records_gone_of_sample :
    (clean ⟨1, true⟩ sampleServices {} sampleBatch).1.calls =
        sampleServices.calls ++ sampleCalls ∧
      ∀ path, .unlink path true ∈ sampleCalls →
        (clean ⟨1, true⟩ sampleServices {} sampleBatch).1.entries.get? path =
          none := by
  have hmade : (clean ⟨1, true⟩ sampleServices {} sampleBatch).1.calls =
      sampleServices.calls ++ sampleCalls := by
    decide +kernel
  have hdelete : .deleteRecord ⟨"s1", finalizingBucket, "u:" ++ sampleKey "o"⟩ ∈
      sampleCalls := by
    simp [sampleCalls]
  obtain ⟨f, owner, login, parts, directory, _, _, _, _, _, hcalls, _, hgone⟩ :=
    live_records_gone_of_deleteRecord hmade hdelete
  refine ⟨hmade, fun path hm => (hgone path ?_).2⟩
  rw [hcalls] at hm
  simpa using hm

end Gone

end Upload
end Reclaim
